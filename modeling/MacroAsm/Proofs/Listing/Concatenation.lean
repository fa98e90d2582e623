import MacroAsm.Proofs.Listing.TrailingComment

/-!
# Texts that are put together

A listing is read line by line and nothing is carried from one line to the next but the number of
the line.  A text that starts on a new line behind another one is therefore read as it would be
read alone, only that its origins are further down.

## Main definitions

* `Origin.down` — an origin some lines further down.

## Main statements

* `Listing.readLines_down` — lines with higher numbers read the same, further down.
* `Listing.readLines_append` — lines that follow other lines.
* `Listing.read_append` — a text that follows another one.
-/

namespace MacroAsm

open Text

/-! ## The highest temporary -/

namespace Temporary

theorem highestId_cons (t : Temporary) (ts : List Temporary) :
    highestId (t :: ts) = max (highestId ts) (some t.id) := by
  rw [highestId]
  cases highestId ts with
  | none => rfl
  | some id => rfl

theorem max_max_right (x y z : Option UInt32) : max (max x y) z = max (max x z) y := by
  have hmax : ∀ a b : UInt32, max a b = if a ≤ b then b else a := fun _ _ => rfl
  cases x <;> cases y <;> cases z <;>
    simp only [Option.max_none_left, Option.max_none_right, Option.max_some_some, hmax,
      Option.some.injEq] <;>
    grind

/-- The highest number of two lists is the larger of their highest; no number is below all. -/
theorem highestId_append (ts us : List Temporary) :
    highestId (ts ++ us) = max (highestId ts) (highestId us) := by
  induction ts with
  | nil => rw [List.nil_append, highestId_nil, Option.max_none_left]
  | cons t ts ih => rw [List.cons_append, highestId_cons, highestId_cons, ih, max_max_right]

end Temporary

theorem Node.maxTemporary_append (as bs : List Node) :
    maxTemporary (as ++ bs) = max (maxTemporary as) (maxTemporary bs) := by
  rw [maxTemporary, temporaries_append, Temporary.highestId_append, ← maxTemporary, ← maxTemporary]

/-! ## Further down -/

/-- A position `n` lines further down. -/
def Position.down (n : Nat) (p : Position) : Position :=
  { p with line := p.line + n }

/-- A span `n` lines further down. -/
def Span.down (n : Nat) (s : Span) : Span :=
  ⟨s.start.down n, s.stop.down n⟩

/-- An origin `n` lines further down in its file. -/
def Origin.down (n : Nat) (o : Origin) : Origin :=
  { o with span := o.span.down n }

/-- An error with its origin replaced. -/
def Listing.ReadError.mapOrigin (g : Origin → Origin) (e : ReadError) : ReadError :=
  { e with origin := g e.origin }

namespace Listing

/-- A line that is read with another origin gives the same node with the other origin. -/
theorem readContent_map (g : Origin → Origin) (o : Origin) (content : List Char) :
    readContent (g o) content = (readContent o content).map (Node.mapOrigin g) := by
  rw [readContent_mapOrigin o (g o)]
  cases hread : readContent o content with
  | error fault => rfl
  | ok node =>
      have hself := mapOrigin_eq_self_of_readContent hread
      have hmap := Node.mapOrigin_mapOrigin (fun _ => o) g node
      rw [hself] at hmap
      exact congrArg Except.ok hmap.symm

/-- A line that is read with another origin, whatever its file and number are. -/
theorem readLine_map {g : Origin → Origin} {file file' : String} {number number' : Nat}
    {line : List Char} (h : lineOrigin file' number' line = g (lineOrigin file number line)) :
    readLine file' number' line =
      ((readLine file number line).map (Option.map (Node.mapOrigin g))).mapError
        (ReadError.mapOrigin g) := by
  unfold readLine
  dsimp only
  split
  · rfl
  · rw [h, readContent_map]
    cases readContent (lineOrigin file number line) (trim line) with
    | error fault => rfl
    | ok node => rfl

/-- Lines with higher numbers read the same, further down. -/
theorem readLines_down (file : String) (number n : Nat) (ls : List (List Char)) :
    readLines file (number + n) ls =
      ((readLines file number ls).map (List.map (Node.mapOrigin (Origin.down n)))).mapError
        (ReadError.mapOrigin (Origin.down n)) := by
  induction ls generalizing number with
  | nil => rfl
  | cons line ls ih =>
      have hnumber : number + n + 1 = number + 1 + n := by omega
      have hline : lineOrigin file (number + n) line = (lineOrigin file number line).down n := rfl
      rw [readLines, readLines, readLine_map hline, hnumber, ih]
      cases readLine file number line with
      | error e => rfl
      | ok node =>
          cases readLines file (number + 1) ls with
          | error e => rfl
          | ok nodes =>
              cases node with
              | none => rfl
              | some node => rfl

/-- Lines that follow other lines are read behind them, unless these cannot be read. -/
theorem readLines_append (file : String) (number : Nat) (ls ms : List (List Char)) :
    readLines file number (ls ++ ms) = do
      let as ← readLines file number ls
      let bs ← readLines file (number + ls.length) ms
      return as ++ bs := by
  induction ls generalizing number with
  | nil =>
      change readLines file number ms = readLines file number ms >>= fun bs => .ok bs
      cases readLines file number ms with
      | error e => rfl
      | ok nodes => rfl
  | cons line ls ih =>
      have hnumber : number + (line :: ls).length = number + 1 + ls.length := by
        rw [List.length_cons]
        omega
      rw [List.cons_append, readLines, readLines, ih, hnumber]
      cases readLine file number line with
      | error e => rfl
      | ok node =>
          cases readLines file (number + 1) ls with
          | error e => rfl
          | ok as =>
              cases readLines file (number + 1 + ls.length) ms with
              | error e => rfl
              | ok bs => exact congrArg Except.ok (List.append_assoc _ _ _).symm

/-- A text that follows another one is read as it would be read alone, as many lines further down as
the first text has. -/
theorem read_append_eq {a : String} (ha : EndsLine a.toList) (file b : String) :
    read file (a ++ b) = do
      let as ← read file a
      let bs ← ((read file b).map (List.map (Node.mapOrigin
        (Origin.down (a.toList.count '\n'))))).mapError
          (ReadError.mapOrigin (Origin.down (a.toList.count '\n')))
      return as ++ bs := by
  have hnumber : 1 + (lines a.toList).length = 1 + a.toList.count '\n' := by rw [length_lines ha]
  rw [read, String.toList_append, lines_append ha, readLines_append, hnumber, readLines_down]
  rfl

/-- **Texts that are put together.**  Behind a text that is empty or ends in a line feed, another text
is read as it would be read alone, as many lines further down as the first text has line feeds.  The
error of the first text comes before one of the second, and the highest temporary of the whole is the
larger of the two. -/
theorem read_append {a : String} (ha : EndsLine a.toList) (file b : String) :
    let n := a.toList.count '\n'
    (∀ e, read file a = .error e → read file (a ++ b) = .error e) ∧
    (∀ as e, read file a = .ok as → read file b = .error e →
      read file (a ++ b) = .error (e.mapOrigin (Origin.down n))) ∧
    ∀ as bs, read file a = .ok as → read file b = .ok bs →
      ∃ nodes, read file (a ++ b) = .ok nodes ∧
        nodes = as ++ bs.map (Node.mapOrigin (Origin.down n)) ∧
        Node.maxTemporary nodes = max (Node.maxTemporary as) (Node.maxTemporary bs) := by
  intro n
  have hread := read_append_eq ha file b
  refine ⟨?_, ?_, ?_⟩
  · intro e hfirst
    rw [hread, hfirst]
    rfl
  · intro as e hfirst hsecond
    rw [hread, hfirst, hsecond]
    rfl
  · intro as bs hfirst hsecond
    refine ⟨as ++ bs.map (Node.mapOrigin (Origin.down n)), ?_, rfl, ?_⟩
    · rw [hread, hfirst, hsecond]
      rfl
    · rw [Node.maxTemporary_append, Node.maxTemporary_mapOrigin]

/-- A carriage return before the seam belongs to the first text, and one behind it is a blank line of
the second. -/
theorem read_append_carriage_returns :
    let a := "x:\r\n\n  noti %t7\r\n"
    let b := "\r\n\ttiz %f3, t0"
    let not (line : Nat) : Node :=
      let origin : Origin := ⟨"f", .onLine line 3 8⟩
      .instruction ⟨.not .int, [.temporary ⟨7, .general, origin⟩], origin⟩
    let test (line : Nat) : Node :=
      let origin : Origin := ⟨"f", .onLine line 2 11⟩
      .instruction ⟨.bitTest .set .int .zero, [.temporary ⟨3, .floating, origin⟩, .register "t0"],
        origin⟩
    let label : Node := .label "x" ⟨"f", .onLine 1 1 2⟩
    EndsLine a.toList ∧ read "f" a = .ok [label, not 3] ∧ read "f" b = .ok [test 2] ∧
      ∃ nodes, read "f" (a ++ b) = .ok nodes ∧ nodes = [label, not 3, test 5] ∧
        Node.maxTemporary nodes = max (some 7) (some 3) := by
  intro a b not test label
  have hends : EndsLine a.toList := by decide +kernel
  have hfirst : read "f" a = .ok [label, not 3] := by decide +kernel
  have hsecond : read "f" b = .ok [test 2] := by decide +kernel
  have hlines : a.toList.count '\n' = 3 := by decide +kernel
  have hwhole := (read_append hends "f" b).2.2 _ _ hfirst hsecond
  rw [hlines] at hwhole
  exact ⟨hends, hfirst, hsecond, hwhole⟩

end Listing

end MacroAsm
