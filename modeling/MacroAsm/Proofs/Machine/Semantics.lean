import MacroAsm.Proofs.Lowering.Runs
import Mathlib.Data.Set.Basic
import Mathlib.Logic.Function.Iterate

/-!
# Running a listing

A listing runs on a machine that says what each instruction does to the registers, the temporaries
and the memory, and whether it falls through or jumps to a label.  Labels, directives and comments
do nothing.  A jump goes to the first label of the given name, and to a halt when there is none.

A machine is faithful to the macro instructions when each of them does what its expansion does, up
to the temporaries that the expansion takes.

## Main definitions

* `Machine.State`, `Machine.Outcome`, `Machine.Semantics` — what an instruction does.
* `Machine.AgreeOff` — states that agree but for some temporaries.
* `Machine.Config`, `Machine.step` — runs of a listing.
* `Machine.Faithful` — machines on which macro instructions and their expansions agree.
* `Machine.nextKeys` — the temporaries that an expansion takes from a supply.
-/

namespace MacroAsm

/-- A temporary is told apart by its class and its number. -/
def Temporary.key (t : Temporary) : RegisterClass × UInt32 :=
  (t.bank, t.id)

/-- The temporaries that an instruction names. -/
def Instruction.keys (i : Instruction) : Set (RegisterClass × UInt32) :=
  {key | ∃ t ∈ i.temporaries, t.key = key}

theorem Instruction.key_mem_keys {i : Instruction} {t : Temporary}
    (h : .temporary t ∈ i.operands) : t.key ∈ i.keys :=
  ⟨t, List.mem_filterMap.mpr ⟨.temporary t, h, rfl⟩, rfl⟩

/-- Whether a node is a label of the given name. -/
def Node.isLabel (name : String) : Node → Bool
  | label name' _ => name' == name
  | _ => false

namespace Machine

universe u v

/-- What a machine holds: the values of its registers and temporaries, and its memory. -/
structure State (V : Type u) (M : Type v) where
  register : String → V
  temporary : RegisterClass × UInt32 → V
  memory : M

/-- How an instruction ends: by falling through, or by a jump to a label. -/
inductive Outcome where
  | next
  | jump (target : String)
deriving DecidableEq, Repr

/-- What each instruction does. -/
abbrev Semantics (V : Type u) (M : Type v) :=
  Instruction → State V M → State V M × Outcome

variable {V : Type u} {M : Type v}

/-! ## States that agree -/

/-- States that agree on everything but the temporaries in `F`. -/
structure AgreeOff (F : Set (RegisterClass × UInt32)) (s s' : State V M) : Prop where
  register : s.register = s'.register
  memory : s.memory = s'.memory
  temporary : ∀ key ∉ F, s.temporary key = s'.temporary key

namespace AgreeOff

variable {F G : Set (RegisterClass × UInt32)} {s t r : State V M}

theorem refl (F : Set (RegisterClass × UInt32)) (s : State V M) : AgreeOff F s s :=
  ⟨rfl, rfl, fun _ _ => rfl⟩

theorem trans (h : AgreeOff F s t) (h' : AgreeOff F t r) : AgreeOff F s r :=
  ⟨h.register.trans h'.register, h.memory.trans h'.memory,
    fun key hkey => (h.temporary key hkey).trans (h'.temporary key hkey)⟩

theorem symm (h : AgreeOff F s t) : AgreeOff F t s :=
  ⟨h.register.symm, h.memory.symm, fun key hkey => (h.temporary key hkey).symm⟩

theorem mono (h : AgreeOff F s t) (hFG : F ⊆ G) : AgreeOff G s t :=
  ⟨h.register, h.memory, fun key hkey => h.temporary key fun hmem => hkey (hFG hmem)⟩

end AgreeOff

/-- What two instructions, or one in two states, did: both ended in the same way, in states that
agree off `F`. -/
structure SameEffect (F : Set (RegisterClass × UInt32)) (r r' : State V M × Outcome) : Prop where
  outcome : r.2 = r'.2
  state : AgreeOff F r.1 r'.1

namespace SameEffect

variable {F G : Set (RegisterClass × UInt32)} {a b c : State V M × Outcome}

theorem refl (F : Set (RegisterClass × UInt32)) (a : State V M × Outcome) : SameEffect F a a :=
  ⟨rfl, .refl F a.1⟩

theorem symm (h : SameEffect F a b) : SameEffect F b a :=
  ⟨h.outcome.symm, h.state.symm⟩

theorem trans (h : SameEffect F a b) (h' : SameEffect F b c) : SameEffect F a c :=
  ⟨h.outcome.trans h'.outcome, h.state.trans h'.state⟩

theorem mono (h : SameEffect F a b) (hFG : F ⊆ G) : SameEffect G a b :=
  ⟨h.outcome, h.state.mono hFG⟩

end SameEffect

/-! ## Runs -/

/-- Where a run stands: it goes on with the nodes `rest`, or it has ended, by passing the last node
or by a jump to a label that is not there. -/
inductive Config (V : Type u) (M : Type v) where
  | running (rest : List Node) (s : State V M)
  | halted (s : State V M) (outcome : Outcome)

/-- A jump to the first label of the name `target`. -/
def goto (program : List Node) (target : String) (s : State V M) : Config V M :=
  match program.dropWhile (!·.isLabel target) with
  | [] => .halted s (.jump target)
  | rest => .running rest s

/-- Where a run goes on after an instruction that is followed by `rest`. -/
def resume (program rest : List Node) : State V M × Outcome → Config V M
  | (s, .next) => .running rest s
  | (s, .jump target) => goto program target s

/-- One step of a run of `program`. -/
def step (exec : Semantics V M) (program : List Node) : Config V M → Config V M
  | .running [] s => .halted s .next
  | .running (.instruction i :: rest) s => resume program rest (exec i s)
  | .running (_ :: rest) s => .running rest s
  | .halted s outcome => .halted s outcome

/-- The run of `program` from the state `s` ends in the state `t`, with the outcome `outcome`. -/
def Halts (exec : Semantics V M) (program : List Node) (s t : State V M) (outcome : Outcome) :
    Prop :=
  ∃ n, (step exec program)^[n] (.running program s) = .halted t outcome

/-- Instructions one after the other, up to the first jump. -/
def execAll (exec : Semantics V M) : List Instruction → State V M → State V M × Outcome
  | [], s => (s, .next)
  | i :: is, s =>
    match exec i s with
    | (t, .next) => execAll exec is t
    | (t, .jump target) => (t, .jump target)

variable {exec : Semantics V M} {program : List Node}

theorem execAll_singleton (i : Instruction) (s : State V M) : execAll exec [i] s = exec i s := by
  rcases hexec : exec i s with ⟨t, outcome⟩
  cases outcome <;> simp [execAll, hexec]

theorem execAll_cons_of_next {i : Instruction} {s t : State V M} (h : exec i s = (t, .next))
    (is : List Instruction) : execAll exec (i :: is) s = execAll exec is t := by
  simp [execAll, h]

theorem iterate_step_halted (n : Nat) (s : State V M) (outcome : Outcome) :
    (step exec program)^[n] (.halted s outcome) = .halted s outcome :=
  Function.iterate_fixed rfl n

/-- Instructions in a row are run in as many steps as are needed to reach the first jump. -/
theorem exists_iterate_step_execAll (is : List Instruction) (hne : is ≠ []) (rest : List Node)
    (s : State V M) :
    ∃ k, 1 ≤ k ∧ (step exec program)^[k] (.running (is.map .instruction ++ rest) s) =
      resume program rest (execAll exec is s) := by
  induction is generalizing s with
  | nil => exact absurd rfl hne
  | cons i is ih =>
      have hfirst : step exec program (.running ((i :: is).map .instruction ++ rest) s) =
          resume program (is.map .instruction ++ rest) (exec i s) := rfl
      rcases hexec : exec i s with ⟨t, outcome⟩
      cases outcome with
      | jump target =>
          refine ⟨1, Nat.le_refl 1, ?_⟩
          rw [Function.iterate_one, hfirst, hexec]
          simp [execAll, hexec, resume]
      | next =>
          cases is with
          | nil =>
              refine ⟨1, Nat.le_refl 1, ?_⟩
              rw [Function.iterate_one, hfirst, hexec]
              simp [execAll, hexec, resume]
          | cons j js =>
              obtain ⟨k, _, hk⟩ := ih (by simp) t
              refine ⟨k + 1, by omega, ?_⟩
              rw [Function.iterate_succ_apply, hfirst, hexec, resume, hk]
              simp [execAll, hexec]

/-! ## Faithful machines -/

/-- A machine on which an instruction depends on and changes no temporary that it does not name, and
on which a macro instruction does what its expansion does.  Whichever temporaries the expansion
takes, as long as they are distinct and the instruction does not name them, both end in the same way
and leave states that agree but for these temporaries. -/
structure Faithful (exec : Semantics V M) : Prop where
  reads : ∀ i s t, AgreeOff i.keysᶜ s t → SameEffect i.keysᶜ (exec i s) (exec i t)
  writes : ∀ i s, ∀ key ∉ i.keys, (exec i s).1.temporary key = s.temporary key
  expands : ∀ i : Instruction, i.Expandable → ∀ ids : Nat → UInt32,
    Set.InjOn ids {k | k < i.demand} → (∀ k < i.demand, (.general, ids k) ∉ i.keys) → ∀ s,
      SameEffect {key | ∃ k < i.demand, key = (.general, ids k)}
        (execAll exec (i.expansion ids) s) (exec i s)

/-- An instruction that names none of the temporaries in `F` does the same in states that agree off
`F`. -/
theorem Faithful.sameEffect_exec (hm : Faithful exec) {F : Set (RegisterClass × UInt32)}
    {i : Instruction} (hi : ∀ key ∈ i.keys, key ∉ F) {s t : State V M} (h : AgreeOff F s t) :
    SameEffect F (exec i s) (exec i t) := by
  have hsub : F ⊆ i.keysᶜ := fun key hkey hmem => hi key hmem hkey
  obtain ⟨houtcome, hagree⟩ := hm.reads i s t (h.mono hsub)
  refine ⟨houtcome, hagree.register, hagree.memory, ?_⟩
  intro key hkey
  by_cases hmem : key ∈ i.keys
  · exact hagree.temporary key (by simpa using hmem)
  · rw [hm.writes i s key hmem, hm.writes i t key hmem, h.temporary key hkey]

/-- The temporaries that are next in a supply. -/
def nextKeys (supply : Supply) (n : Nat) : Set (RegisterClass × UInt32) :=
  {key | ∃ k < n, key = (.general, supply.upcoming k)}

theorem notMem_nextKeys {supply : Supply} {n : Nat} (hfit : supply.next + n ≤ Supply.capacity)
    {t : Temporary} (ht : t.id.toNat < supply.next) : t.key ∉ nextKeys supply n := by
  rintro ⟨k, hk, heq⟩
  have hid : t.id = supply.upcoming k := congrArg Prod.snd heq
  rw [hid, Supply.toNat_upcoming (by omega)] at ht
  omega

/-- The numbers that are next in a supply are distinct. -/
theorem injOn_upcoming {supply : Supply} {n : Nat} (hfit : supply.next + n ≤ Supply.capacity) :
    Set.InjOn supply.upcoming {k | k < n} := by
  intro j hj k hk heq
  have hj : j < n := hj
  have hk : k < n := hk
  have heq := congrArg UInt32.toNat heq
  rw [Supply.toNat_upcoming (by omega), Supply.toNat_upcoming (by omega)] at heq
  omega

end Machine

end MacroAsm
