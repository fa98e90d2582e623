import MacroAsm.Proofs.Lowering.Runs
import Mathlib.Data.List.Nodup

/-!
# The requests of a session

Direct requests, expansions of single instructions, passes and pipelines may all take their
temporaries from one supply, one after the other, and any of them may fail on the way.  A failure
drops what was made so far, but the numbers that were handed out before it stay taken.  To speak of
these numbers, a run is taken apart into the requests that it makes; what one request does then says
all about any sequence of them.

## Main definitions

* `Request` — a request for a temporary, with the supply that it finds.
* `Supply.Answers` — requests that a supply answers one after the other.
* `LowerM.Asks` — the requests that a computation makes.
* `Use`, `Use.AskAll` — what a supply can be used for, and the requests of a sequence of uses.
* `Supply.Accounts` — what is known of a supply from the numbers that were handed out.

## Main statements

* `Request.cases` — what one request does.
* `Supply.Answers.numbers_eq` — the numbers that a sequence of requests is given.
* `LowerM.Asks.answers` — the requests of a computation are answered one after the other.
* `Use.accounts_of_askAll` — the numbers that a session hands out.
-/

namespace MacroAsm

/-! ## One request -/

/-- A request for a temporary of class `bank` for the instruction at `origin`, and the supply that it
finds. -/
structure Request where
  bank : RegisterClass
  origin : Origin
  supply : Supply
deriving DecidableEq, Repr

namespace Request

/-- The temporary that is handed out, or the failure. -/
def answer (r : Request) : Except LowerError Temporary :=
  ((fresh r.bank r.origin).runFrom r.supply).1

/-- The supply that the request leaves. -/
def after (r : Request) : Supply :=
  ((fresh r.bank r.origin).runFrom r.supply).2

/-- The number that is handed out, if any is. -/
def number? (r : Request) : Option UInt32 :=
  r.answer.toOption.map Temporary.id

/-- The numbers that are handed out, in order. -/
def numbers (rs : List Request) : List UInt32 :=
  rs.filterMap number?

variable {r : Request}

theorem answer_of_lt (h : r.supply.next < Supply.capacity) :
    r.answer = .ok ⟨UInt32.ofNat r.supply.next, r.bank, r.origin⟩ ∧
      r.after = r.supply.advance h := by
  simp [answer, after, runFrom_fresh, h]

theorem answer_of_eq (h : r.supply.next = Supply.capacity) :
    r.answer = .error (.exhausted r.origin) ∧ r.after = r.supply := by
  simp [answer, after, runFrom_fresh, h]

/-- A request is given the next number, or, when there is none, fails and changes nothing. -/
theorem cases (r : Request) :
    (∃ h : r.supply.next < Supply.capacity,
      r.number? = some (UInt32.ofNat r.supply.next) ∧ r.after = r.supply.advance h) ∨
    r.supply.next = Supply.capacity ∧ r.number? = none ∧ r.after = r.supply := by
  have hle := r.supply.next_le
  by_cases h : r.supply.next < Supply.capacity
  · left
    obtain ⟨hanswer, hafter⟩ := answer_of_lt h
    exact ⟨h, by rw [number?, hanswer]; rfl, hafter⟩
  · right
    have heq : r.supply.next = Supply.capacity := by omega
    obtain ⟨hanswer, hafter⟩ := answer_of_eq heq
    exact ⟨heq, by rw [number?, hanswer]; rfl, hafter⟩

end Request

/-! ## Requests one after the other -/

namespace Supply

open Request (numbers)

/-- Requests that a supply answers one after the other, and the supply that they leave: each finds
what the one before it left. -/
def Answers : Supply → List Request → Supply → Prop
  | s, [], s' => s' = s
  | s, r :: rs, s' => r.supply = s ∧ Answers r.after rs s'

variable {s mid s' : Supply} {rs rs' : List Request}

theorem nextId?_eq_none_iff : s.nextId? = none ↔ s.next = capacity := by
  have hle := s.next_le
  unfold nextId?
  split
  · simp only [reduceCtorEq, false_iff]
    omega
  · simp only [true_iff]
    omega

namespace Answers

theorem append (h : Answers s rs mid) (h' : Answers mid rs' s') : Answers s (rs ++ rs') s' := by
  induction rs generalizing s with
  | nil =>
      obtain rfl : mid = s := h
      exact h'
  | cons r rs ih => exact ⟨h.1, ih h.2⟩

/-- Between two requests there is a supply that the first left and the second finds. -/
theorem exists_of_append (h : Answers s (rs ++ rs') s') :
    ∃ mid, Answers s rs mid ∧ Answers mid rs' s' := by
  induction rs generalizing s with
  | nil => exact ⟨s, rfl, h⟩
  | cons r rs ih =>
      obtain ⟨mid, hrs, hrs'⟩ := ih h.2
      exact ⟨mid, ⟨h.1, hrs⟩, hrs'⟩

/-- The numbers that are handed out follow each other, and the supply moves on by as many. -/
theorem numbers_eq (h : Answers s rs s') :
    (numbers rs).map UInt32.toNat = List.range' s.next (numbers rs).length ∧
      s'.next = s.next + (numbers rs).length ∧
      s'.allocated = s.allocated + (numbers rs).length := by
  induction rs generalizing s with
  | nil =>
      obtain rfl : s' = s := h
      simp [numbers]
  | cons r rs ih =>
      obtain ⟨rfl, hrest⟩ := h
      obtain ⟨hnumbers, hnext, hallocated⟩ := ih hrest
      rcases r.cases with ⟨hlt, hnumber, hafter⟩ | ⟨_, hnumber, hafter⟩
      · have hcons : numbers (r :: rs) = UInt32.ofNat r.supply.next :: numbers rs :=
          List.filterMap_cons_some hnumber
        have hid : (UInt32.ofNat r.supply.next).toNat = r.supply.next :=
          UInt32.toNat_ofNat_of_lt hlt
        simp only [hafter, advance] at hnumbers hnext hallocated
        rw [hcons, List.map_cons, List.length_cons, List.range'_succ, hnumbers, hid]
        exact ⟨rfl, by omega, by omega⟩
      · have hcons : numbers (r :: rs) = numbers rs := List.filterMap_cons_none hnumber
        rw [hafter] at hnumbers hnext hallocated
        rw [hcons]
        exact ⟨hnumbers, hnext, hallocated⟩

/-- Once nothing is left, every request fails and changes nothing. -/
theorem of_exhausted (h : Answers s rs s') (hs : s.nextId? = none) :
    s' = s ∧ ∀ r ∈ rs, r.supply = s ∧ r.answer = .error (.exhausted r.origin) ∧ r.after = s := by
  induction rs with
  | nil => exact ⟨h, by simp⟩
  | cons r rs ih =>
      obtain ⟨rfl, hrest⟩ := h
      obtain ⟨hanswer, hafter⟩ := Request.answer_of_eq (nextId?_eq_none_iff.mp hs)
      rw [hafter] at hrest
      obtain ⟨heq, hall⟩ := ih hrest
      refine ⟨heq, ?_⟩
      intro q hq
      rcases List.mem_cons.mp hq with rfl | hq
      · exact ⟨rfl, hanswer, hafter⟩
      · exact hall q hq

end Answers

end Supply

/-! ## The requests of a computation -/

namespace LowerM

/-- The requests that a computation makes from a supply, in order, and how it ends.  A sequence makes
the requests of its first part and, unless that fails, those of its second. -/
inductive Asks : {α : Type} → LowerM α → Supply → List Request → Except LowerError α × Supply → Prop
  | pure {α : Type} (a : α) (s : Supply) : Asks (Pure.pure a) s [] (.ok a, s)
  | throw {α : Type} (e : LowerError) (s : Supply) :
      Asks (MonadExcept.throw e : LowerM α) s [] (.error e, s)
  | fresh (bank : RegisterClass) (origin : Origin) (s : Supply) :
      Asks (fresh bank origin) s [⟨bank, origin, s⟩] ((MacroAsm.fresh bank origin).runFrom s)
  | bind {α β : Type} {m : LowerM α} {f : α → LowerM β} {s mid : Supply} {a : α}
      {rs rs' : List Request} {result : Except LowerError β × Supply}
      (hm : Asks m s rs (.ok a, mid)) (hf : Asks (f a) mid rs' result) :
      Asks (m >>= f) s (rs ++ rs') result
  | failed {α β : Type} {m : LowerM α} {f : α → LowerM β} {s s' : Supply} {e : LowerError}
      {rs : List Request} (hm : Asks m s rs (.error e, s')) : Asks (m >>= f) s rs (.error e, s')

namespace Asks

variable {α : Type} {m : LowerM α} {s : Supply} {rs : List Request}
  {result : Except LowerError α × Supply}

/-- A computation that is taken apart ends as it does when it is run. -/
theorem runFrom_eq (h : Asks m s rs result) : m.runFrom s = result := by
  induction h with
  | pure a s => rfl
  | throw e s => rfl
  | fresh bank origin s => rfl
  | bind _ _ ihm ihf =>
      rw [runFrom_bind, ihm]
      exact ihf
  | failed _ ih => rw [runFrom_bind, ih]

/-- The requests of a computation are answered one after the other. -/
theorem answers (h : Asks m s rs result) : s.Answers rs result.2 := by
  induction h with
  | pure a s => rfl
  | throw e s => rfl
  | fresh bank origin s => exact ⟨rfl, rfl⟩
  | bind _ _ ihm ihf => exact ihm.append ihf
  | failed _ ih => exact ih

/-- A computation fails as the first request that fails. -/
theorem failed_of_mem {r : Request} {e : LowerError} (h : Asks m s rs result) (hr : r ∈ rs)
    (he : r.answer = .error e) : result.1 = .error e := by
  induction h with
  | pure a s => contradiction
  | throw e s => contradiction
  | fresh bank origin s =>
      obtain rfl := List.mem_singleton.mp hr
      exact he
  | bind _ _ ihm ihf =>
      rcases List.mem_append.mp hr with hr | hr
      · cases ihm hr
      · exact ihf hr
  | failed _ ih =>
      exact congrArg Except.error (Except.error.inj (ih hr))

end Asks

/-- From every supply the computation can be taken apart into requests from origins in `places`. -/
def AsksFrom (places : Set Origin) (m : LowerM α) : Prop :=
  ∀ s, ∃ rs, Asks m s rs (m.runFrom s) ∧ ∀ r ∈ rs, r.origin ∈ places

namespace AsksFrom

variable {α β : Type} {places : Set Origin} {m : LowerM α}

theorem pure (a : α) : AsksFrom places (Pure.pure a) :=
  fun s => ⟨[], .pure a s, by simp⟩

theorem throw (e : LowerError) : AsksFrom places (MonadExcept.throw e : LowerM α) :=
  fun s => ⟨[], .throw e s, by simp⟩

theorem fresh (bank : RegisterClass) {origin : Origin} (h : origin ∈ places) :
    AsksFrom places (fresh bank origin) :=
  fun s => ⟨_, .fresh bank origin s, by simpa using h⟩

/-- A sequence asks for what its parts ask for; the second part may rely on the first. -/
theorem bind {f : α → LowerM β} (hm : AsksFrom places m)
    (hf : ∀ a s s', m.runFrom s = (.ok a, s') → AsksFrom places (f a)) :
    AsksFrom places (m >>= f) := by
  intro s
  obtain ⟨rs, hrs, hplaces⟩ := hm s
  rw [runFrom_bind]
  rcases hrun : m.runFrom s with ⟨e | a, mid⟩
  · rw [hrun] at hrs
    exact ⟨rs, .failed hrs, hplaces⟩
  · rw [hrun] at hrs
    obtain ⟨rs', hrs', hplaces'⟩ := hf a s mid hrun mid
    exact ⟨rs ++ rs', .bind hrs hrs', List.forall_mem_append.mpr ⟨hplaces, hplaces'⟩⟩

theorem mono {places' : Set Origin} (h : places ⊆ places') (hm : AsksFrom places m) :
    AsksFrom places' m := by
  intro s
  obtain ⟨rs, hrs, hplaces⟩ := hm s
  exact ⟨rs, hrs, fun r hr => h (hplaces r hr)⟩

end AsksFrom

end LowerM

/-! ## The requests of a run -/

open LowerM (AsksFrom)

namespace Instruction

variable (i : Instruction) {places : Set Origin}

theorem asksFrom_expandNot (width : Width) : AsksFrom places (i.expandNot width) := by
  unfold expandNot
  split
  · exact .pure _
  · exact .throw _

theorem asksFrom_expandMulOverflow (hopcode : i.opcode = .branchMulOverflow)
    (h : 0 < i.demand → i.origin ∈ places) : AsksFrom places i.expandMulOverflow := by
  unfold expandMulOverflow
  split
  · rename_i hoperands
    have horigin := h (by simp [demand, hopcode, hoperands])
    exact .bind (.fresh _ horigin) fun _ _ _ _ =>
      .bind (.fresh _ horigin) fun _ _ _ _ => .pure _
  · exact .throw _

theorem asksFrom_expandBitTest {form : Form} {width : Width} {condition : TestCondition}
    (hopcode : i.opcode = .bitTest form width condition) (h : 0 < i.demand → i.origin ∈ places) :
    AsksFrom places (i.expandBitTest form width condition) := by
  unfold expandBitTest
  split
  · exact .pure _
  · rename_i hoperands
    split
    · exact .pure _
    split
    · exact .pure _
    · rename_i hleft hright
      have horigin := h (by simp [demand, hopcode, hoperands, hleft, hright])
      exact .bind (.fresh _ horigin) fun _ _ _ _ => .pure _
  · exact .throw _

end Instruction

namespace Pass

/-- The origins of the instructions for which a pass asks for temporaries. -/
def requesters (p : Pass) (nodes : List Node) : Set Origin :=
  { o | ∃ i, .instruction i ∈ nodes ∧ p.handles i.opcode = true ∧ 0 < i.demand ∧ i.origin = o }

theorem asksFrom_expand (p : Pass) (i : Instruction) :
    AsksFrom (p.requesters [.instruction i]) (p.expand i) := by
  have horigin (hp : p.handles i.opcode = true) (hi : 0 < i.demand) :
      i.origin ∈ p.requesters [.instruction i] := ⟨i, by simp, hp, hi, rfl⟩
  unfold expand
  split
  · exact i.asksFrom_expandNot _
  · rename_i hopcode
    exact i.asksFrom_expandMulOverflow hopcode (horigin (by rw [hopcode]; rfl))
  · rename_i hopcode
    exact i.asksFrom_expandBitTest hopcode (horigin (by rw [hopcode]; rfl))
  · exact .pure _

theorem requesters_mono {p : Pass} {ns ns' : List Node} (h : ns ⊆ ns') :
    p.requesters ns ⊆ p.requesters ns' := by
  rintro o ⟨i, hi, hrest⟩
  exact ⟨i, h hi, hrest⟩

theorem asksFrom_expandNode (p : Pass) (n : Node) :
    AsksFrom (p.requesters [n]) (p.expandNode n) := by
  cases n with
  | instruction i => exact .bind (p.asksFrom_expand i) fun _ _ _ _ => .pure _
  | label name o => exact .pure _
  | directive text o => exact .pure _
  | comment text o => exact .pure _

theorem asksFrom_run (p : Pass) (ns : List Node) : AsksFrom (p.requesters ns) (p.run ns) := by
  induction ns with
  | nil => exact .pure _
  | cons n ns ih =>
      refine .bind ((p.asksFrom_expandNode n).mono (requesters_mono (by simp))) fun _ _ _ _ => ?_
      refine .bind (ih.mono (requesters_mono (by simp))) fun _ _ _ _ => ?_
      exact .pure _

/-- What later passes handle in the output of a pass was there before it. -/
theorem Runs.requesters_subset {p : Pass} {ns out : List Node} {s s' : Supply}
    (h : p.Runs ns s out s') (q : Pass) : q.requesters out ⊆ q.requesters ns := by
  have hout : ∀ m ∈ out, ∀ i, m = .instruction i → q.handles i.opcode = true → m ∈ ns := by
    refine h.forall_mem (fun n hn _ _ _ => hn) ?_
    rintro i ids hi - - j hj _ ⟨⟩ hq
    have hnot := (hi.emitted hj).not_handles q
    rw [hq] at hnot
    contradiction
  rintro o ⟨i, hi, hq, hrest⟩
  exact ⟨i, hout _ hi i rfl hq, hq, hrest⟩

end Pass

namespace Pipeline

/-- The origins of the instructions for which a pipeline asks for temporaries. -/
def requesters (ps : Pipeline) (nodes : List Node) : Set Origin :=
  { o | ∃ p ∈ ps, o ∈ p.requesters nodes }

theorem asksFrom_run (ps : Pipeline) (ns : List Node) :
    AsksFrom (requesters ps ns) (run ps ns) := by
  induction ps generalizing ns with
  | nil => exact .pure _
  | cons p ps ih =>
      refine .bind ((p.asksFrom_run ns).mono ?_) ?_
      · intro o ho
        exact ⟨p, List.mem_cons_self, ho⟩
      · intro mid s s' hrun
        refine (ih mid).mono ?_
        rintro o ⟨q, hq, ho⟩
        have hsub := (Pass.runFrom_run_eq_ok.mp hrun).requesters_subset q
        exact ⟨q, List.mem_cons_of_mem _ hq, hsub ho⟩

end Pipeline

/-! ## Sessions -/

/-- What a supply can be used for: a direct request, the expansion of one instruction, a pass, or a
pipeline. -/
inductive Use where
  | take (bank : RegisterClass) (origin : Origin)
  | expand (p : Pass) (i : Instruction)
  | pass (p : Pass) (nodes : List Node)
  | pipeline (ps : Pipeline) (nodes : List Node)
deriving DecidableEq, Repr

namespace Use

/-- A use, without the value that it gives. -/
def perform : Use → LowerM Unit
  | take bank origin => do let _ ← fresh bank origin
  | expand p i => do let _ ← p.expand i
  | pass p nodes => do let _ ← p.run nodes
  | pipeline ps nodes => do let _ ← ps.run nodes

/-- The origins for which a use asks for temporaries. -/
def requesters : Use → Set Origin
  | take _ origin => {origin}
  | expand p i => p.requesters [.instruction i]
  | pass p nodes => p.requesters nodes
  | pipeline ps nodes => ps.requesters nodes

/-- The supply that is left by some uses, whether they succeed or fail. -/
def afterAll (us : List Use) (s : Supply) : Supply :=
  us.foldl (fun s u => (u.perform.runFrom s).2) s

/-- The requests of uses of one supply, in order, for each use those that its requesters make. -/
inductive AskAll : List Use → Supply → List (List Request) → Supply → Prop
  | nil (s : Supply) : AskAll [] s [] s
  | cons {u : Use} {us : List Use} {s mid s' : Supply} {outcome : Except LowerError Unit}
      {rs : List Request} {rss : List (List Request)} (hu : u.perform.Asks s rs (outcome, mid))
      (hfrom : ∀ r ∈ rs, r.origin ∈ u.requesters) (hus : AskAll us mid rss s') :
      AskAll (u :: us) s (rs :: rss) s'

theorem asksFrom_perform (u : Use) : AsksFrom u.requesters u.perform := by
  cases u with
  | take bank origin => exact .bind (.fresh bank rfl) fun _ _ _ _ => .pure _
  | expand p i => exact .bind (p.asksFrom_expand i) fun _ _ _ _ => .pure _
  | pass p nodes => exact .bind (p.asksFrom_run nodes) fun _ _ _ _ => .pure _
  | pipeline ps nodes => exact .bind (ps.asksFrom_run nodes) fun _ _ _ _ => .pure _

/-- Every session can be taken apart into its requests. -/
theorem exists_askAll (us : List Use) (s : Supply) : ∃ rss, AskAll us s rss (afterAll us s) := by
  induction us generalizing s with
  | nil => exact ⟨[], .nil s⟩
  | cons u us ih =>
      obtain ⟨rs, hrs, hfrom⟩ := u.asksFrom_perform s
      obtain ⟨rss, hrss⟩ := ih (u.perform.runFrom s).2
      exact ⟨rs :: rss, .cons hrs hfrom hrss⟩

namespace AskAll

variable {us : List Use} {s s' : Supply} {rss : List (List Request)}

theorem eq_afterAll (h : AskAll us s rss s') : s' = afterAll us s := by
  induction h with
  | nil s => rfl
  | cons hu _ _ ih =>
      rw [ih, afterAll, afterAll, List.foldl_cons, hu.runFrom_eq]

theorem answers (h : AskAll us s rss s') : s.Answers rss.flatten s' := by
  induction h with
  | nil s => rfl
  | cons hu _ _ ih => exact hu.answers.append ih

end AskAll

end Use

namespace Supply

open Request (numbers)

/-- The first number above `m`. -/
def firstAbove : Option UInt32 → Nat
  | none => 0
  | some m => m.toNat + 1

/-- What is known of a supply that started above `m` from the requests that were made of it. -/
structure Accounts (m : Option UInt32) (rs : List Request) (s : Supply) : Prop where
  in_order : (numbers rs).map UInt32.toNat = List.range' (firstAbove m) (numbers rs).length
  nodup : (numbers rs).Nodup
  bounded : firstAbove m + (numbers rs).length ≤ 4294967296
  allocated_eq : s.allocated = (numbers rs).length
  nextId?_eq_some : ∀ id, s.nextId? = some id ↔ id.toNat = firstAbove m + (numbers rs).length
  nextId?_eq_none : s.nextId? = none ↔ 4294967295 ∈ numbers rs ∨ m = some 4294967295

theorem next_above (m : Option UInt32) : (above m).next = firstAbove m := by
  cases m <;> rfl

theorem nextId?_eq_some_iff {s : Supply} {id : UInt32} :
    s.nextId? = some id ↔ id.toNat = s.next := by
  have hlt : id.toNat < capacity := id.toNat_lt
  unfold nextId?
  split
  · rename_i hnext
    have hid : (UInt32.ofNat s.next).toNat = s.next := UInt32.toNat_ofNat_of_lt hnext
    rw [Option.some.injEq, ← UInt32.toNat_inj, hid, eq_comm]
  · simp only [reduceCtorEq, false_iff]
    omega

theorem firstAbove_eq_size_iff {m : Option UInt32} :
    firstAbove m = 4294967296 ↔ m = some 4294967295 := by
  cases m with
  | none => simp [firstAbove]
  | some m =>
      rw [firstAbove, Option.some.injEq, ← UInt32.toNat_inj]
      simp

/-- Requests of a supply above `m` account for its state. -/
theorem Answers.accounts {m : Option UInt32} {rs : List Request} {s : Supply}
    (h : Answers (above m) rs s) : Accounts m rs s := by
  obtain ⟨horder, hnext, hallocated⟩ := h.numbers_eq
  have hle : s.next ≤ 4294967296 := s.next_le
  rw [next_above] at horder hnext
  rw [allocated_above, Nat.zero_add] at hallocated
  have hmem : 4294967295 ∈ numbers rs ↔
      firstAbove m ≤ 4294967295 ∧ 4294967295 < firstAbove m + (numbers rs).length := by
    have hinj : Function.Injective UInt32.toNat := fun a b => UInt32.toNat_inj.mp
    rw [← List.mem_map_of_injective hinj, horder, List.mem_range'_1]
    rfl
  refine ⟨horder, ?_, by omega, hallocated, ?_, ?_⟩
  · have hnodup : ((numbers rs).map UInt32.toNat).Nodup := by
      rw [horder]
      exact List.nodup_range'
    exact List.Nodup.of_map _ hnodup
  · intro id
    rw [nextId?_eq_some_iff, hnext]
  · rw [nextId?_eq_none_iff, hmem, ← firstAbove_eq_size_iff, hnext]
    change _ = 4294967296 ↔ _
    omega

end Supply

namespace Use

/-- **One supply never hands out a number twice.**  Take any uses of a supply that starts above `m`,
whether they succeed or fail.  They can be taken apart into requests for temporaries, and however
this is done, at every point between two requests

* the numbers that were handed out, those of failed runs included, are the ones that follow `m`, in
  order and without repetition, and the supply counts them and knows the number that follows, which
  is missing exactly when the last number is taken;
* once it is missing, every later request fails at its own origin and changes nothing, and so does
  the use that makes it. -/
theorem accounts_of_askAll (m : Option UInt32) (us : List Use) :
    (∃ rss, AskAll us (.above m) rss (afterAll us (.above m))) ∧
    (∀ rss s, AskAll us (.above m) rss s →
      s = afterAll us (.above m) ∧
      ∀ earlier later, rss.flatten = earlier ++ later →
        ∃ mid, Supply.Answers (.above m) earlier mid ∧ mid.Answers later s ∧
          mid.Accounts m earlier ∧
          (mid.nextId? = none → s = mid ∧ ∀ r ∈ later,
            r.supply = mid ∧ r.answer = .error (.exhausted r.origin) ∧ r.after = mid)) ∧
    (∀ (u : Use) (s : Supply), s.nextId? = none →
      ∀ rs result, u.perform.Asks s rs result →
        result.2 = s ∧ ∀ r ∈ rs, result.1 = .error (.exhausted r.origin)) := by
  refine ⟨exists_askAll us _, ?_, ?_⟩
  · intro rss s h
    refine ⟨h.eq_afterAll, ?_⟩
    intro earlier later hsplit
    have hanswers := h.answers
    rw [hsplit] at hanswers
    obtain ⟨mid, hearlier, hlater⟩ := hanswers.exists_of_append
    exact ⟨mid, hearlier, hlater, hearlier.accounts, hlater.of_exhausted⟩
  · intro u s hs rs result h
    obtain ⟨hsame, hfail⟩ := h.answers.of_exhausted hs
    exact ⟨hsame, fun r hr => h.failed_of_mem hr (hfail r hr).2.1⟩

/-- Two numbers are left.  A direct request takes the first, and an expansion fails after it took the
second; the pipeline and the request after it find nothing. -/
theorem accounts_of_askAll_last_numbers :
    let place : Origin := ⟨"a.asm", ⟨⟨1, 1⟩, ⟨1, 1⟩⟩⟩
    let target : Operand := .label "x"
    let uses : List Use := [
      .take .general place,
      .expand .mulOverflow ⟨.branchMulOverflow, [.register "t0", .register "t1", target], place⟩,
      .pipeline Pipeline.default
        [.instruction ⟨.bitTest .branch .int .zero, [.register "t0", .register "t1", target], place⟩],
      .take .floating place]
    ∃ rss s, AskAll uses (.above (some 4294967293)) rss s ∧
      Request.numbers rss.flatten = [4294967294, 4294967295] ∧ s.allocated = 2 ∧
      s.nextId? = none := by
  intro place target uses
  obtain ⟨⟨rss, hrss⟩, hall, -⟩ := accounts_of_askAll (some 4294967293) uses
  obtain ⟨-, hparts⟩ := hall rss _ hrss
  obtain ⟨mid, -, hmid, haccounts, -⟩ := hparts rss.flatten [] (List.append_nil _).symm
  obtain rfl : afterAll uses (.above (some 4294967293)) = mid := hmid
  have hallocated : (afterAll uses (.above (some 4294967293))).allocated = 2 := by decide
  have hlength := haccounts.allocated_eq.symm.trans hallocated
  refine ⟨rss, _, hrss, ?_, hallocated, by decide⟩
  have horder := haccounts.in_order
  rw [hlength] at horder
  exact List.map_injective_iff.mpr (fun a b => UInt32.toNat_inj.mp) horder

end Use

end MacroAsm
