import ExprMachine.Proofs.MirroredRecords
import ExprMachine.Proofs.Structured

/-!
# The structure of loops

The jumps of an expression go forward to the end of the code that they jump over, or back to the
head of the loop that they are in, and a loop is left at its end only. Like its scopes, the loops
of code are told from the records one by one, by a grammar (`Looping`). Code in a loop may go back
to the head of the loop and append to its result, which is moved behind the loop; so what surrounds
the code is a parameter of the grammar (`Around`).

What is asked of the loops holds of all code of the grammar by induction. A loop is *closed*: the
records in it lead to records in it or to its end, and those outside lead to none of the records in
it (`Looping.respects`). So two loops are disjoint, or one is inside the other one
(`Looping.nested`). What is appended to is the result of a loop that the record is in
(`Looping.appends`).
-/

namespace ExprMachine

/-! ## Lines at places -/

/-- Lines from a place on have a line at a place. -/
def LineAt (place : Nat) (lines : List Line) (k : Nat) (l : Line) : Prop :=
  ∃ i, lines[i]? = some l ∧ k = place + i

section

variable {place k : Nat} {xs ys : List Line} {l m : Line}

theorem not_lineAt_nil : ¬ LineAt place [] k l := by
  rintro ⟨i, hi, -⟩
  cases hi

/-- A line is the first one, or it is at its place among the others. -/
theorem lineAt_cons : LineAt place (m :: xs) k l ↔ k = place ∧ l = m ∨ LineAt (place + 1) xs k l := by
  constructor
  · rintro ⟨i, hi, rfl⟩
    cases i with
    | zero => exact .inl ⟨rfl, (Option.some.inj hi).symm⟩
    | succ i => exact .inr ⟨i, hi, by omega⟩
  · rintro (⟨rfl, rfl⟩ | ⟨i, hi, rfl⟩)
    · exact ⟨0, rfl, rfl⟩
    · exact ⟨i + 1, hi, by omega⟩

theorem lineAt_singleton : LineAt place [m] k l ↔ k = place ∧ l = m := by
  rw [lineAt_cons, or_iff_left not_lineAt_nil]

/-- A line is among the first lines or among those after them. -/
theorem lineAt_append :
    LineAt place (xs ++ ys) k l ↔ LineAt place xs k l ∨ LineAt (place + xs.length) ys k l := by
  induction xs generalizing place with
  | nil => simp [not_lineAt_nil]
  | cons m xs ih =>
    rw [List.cons_append, lineAt_cons, lineAt_cons, ih, or_assoc, List.length_cons, Nat.add_assoc,
      Nat.add_comm 1]

theorem LineAt.le (h : LineAt place xs k l) : place ≤ k := by
  obtain ⟨i, -, rfl⟩ := h
  exact Nat.le_add_right _ _

theorem LineAt.lt (h : LineAt place xs k l) : k < place + xs.length := by
  obtain ⟨i, hi, rfl⟩ := h
  exact Nat.add_lt_add_left (List.getElem?_eq_some_iff.1 hi).1 _

theorem LineAt.mem (h : LineAt place xs k l) : l ∈ xs := by
  obtain ⟨i, hi, -⟩ := h
  exact List.mem_of_getElem? hi

/-- There is one line at a place. -/
theorem LineAt.unique (h : LineAt place xs k l) (h' : LineAt place xs k m) : l = m := by
  obtain ⟨i, hi, rfl⟩ := h
  obtain ⟨j, hj, hij⟩ := h'
  obtain rfl := Nat.add_left_cancel hij
  exact Option.some.inj (hi.symm.trans hj)

end

/-! ## Jumps and loops -/

/-- The records that go on elsewhere, or may do so. -/
def Opcode.isJump : Opcode → Bool
  | .jumpIfFalse | .jumpIfTrue | .jump => true
  | _ => false

/-- The records that have no part in loops. -/
@[reducible] def Opcode.Straight : Opcode → Prop
  | .jumpIfFalse | .jumpIfTrue | .jump | .iterNext | .listAppend => False
  | _ => True

/-- A jump leads to where its first operand says, and nowhere else. -/
theorem Line.targets_of_isJump {l : Line} (h : l.opcode.isJump) : l.targets = [l.op1] := by
  obtain ⟨opcode, dst, a, b, c, k⟩ := l
  cases opcode <;> first | rfl | cases h

/-- A record without a part in loops leads nowhere but on. -/
theorem Line.targets_of_straight {l : Line} (h : l.opcode.Straight) : l.targets = [] := by
  obtain ⟨opcode, dst, a, b, c, k⟩ := l
  cases opcode <;> first | rfl | cases h

/-- The head of a loop leads to its end. -/
theorem Line.targets_of_iterNext {l : Line} (h : l.opcode = .iterNext) : l.targets = [l.op2] := by
  obtain ⟨opcode, dst, a, b, c, k⟩ := l
  cases h
  rfl

theorem Line.op2_mem_targets {l : Line} (h : l.opcode = .iterNext) : l.op2 ∈ l.targets := by
  rw [targets_of_iterNext h]
  exact List.mem_singleton_self _

theorem Opcode.ne_iterNext_of_isJump {op : Opcode} (h : op.isJump) : op ≠ .iterNext := by
  rintro rfl
  cases h

theorem Opcode.ne_iterNext_of_straight {op : Opcode} (h : op.Straight) : op ≠ .iterNext := by
  rintro rfl
  exact h

/-- Different places have different offsets. -/
theorem stride_inj {a b : Nat} : stride * a = stride * b ↔ a = b :=
  Nat.mul_left_cancel_iff (by decide)

/-- There is a loop among some lines, from its head to its end. -/
def LoopAt (place : Nat) (lines : List Line) (head exit : Nat) : Prop :=
  ∃ l, LineAt place lines head l ∧ l.opcode = .iterNext ∧ l.op2 = stride * exit

section

variable {place head exit : Nat} {xs ys : List Line} {m : Line}

/-- A loop has the first line for its head, or it is among the others. -/
theorem loopAt_cons : LoopAt place (m :: xs) head exit ↔
    (head = place ∧ m.opcode = .iterNext ∧ m.op2 = stride * exit) ∨
      LoopAt (place + 1) xs head exit := by
  simp only [LoopAt, lineAt_cons, or_and_right, exists_or]
  exact or_congr_left ⟨fun ⟨l, ⟨hk, hl⟩, h⟩ => ⟨hk, hl ▸ h⟩, fun ⟨hk, h⟩ => ⟨m, ⟨hk, rfl⟩, h⟩⟩

/-- A loop has its head among the first lines or among those after them. -/
theorem loopAt_append : LoopAt place (xs ++ ys) head exit ↔
    LoopAt place xs head exit ∨ LoopAt (place + xs.length) ys head exit := by
  simp only [LoopAt, lineAt_append, or_and_right, exists_or]

theorem not_loopAt_nil : ¬ LoopAt place [] head exit := fun ⟨_, h, _⟩ => not_lineAt_nil h

end

/-! ## The grammar -/

/-- The loop that code lies in. -/
structure Around where
  /-- The place of its head. -/
  head : Nat
  /-- The register in which its result is built up. -/
  result : Nat

/-- Code whose loops are nested, from a place on, with a loop around it or none. -/
inductive Looping : Option Around → Nat → List Line → Prop where
  | nil {around : Option Around} {place : Nat} : Looping around place []
  | append {around : Option Around} {place : Nat} {xs ys : List Line}
      (hx : Looping around place xs) (hy : Looping around (place + xs.length) ys) :
      Looping around place (xs ++ ys)
  | straight {around : Option Around} {place : Nat} {l : Line} (h : l.opcode.Straight) :
      Looping around place [l]
  /-- A jump over some code. -/
  | forward {around : Option Around} {place : Nat} {jump : Line} {xs : List Line}
      (hjump : jump.opcode.isJump) (hop1 : jump.op1 = stride * (place + xs.length + 1))
      (hx : Looping around (place + 1) xs) : Looping around place (jump :: xs)
  /-- A jump over some code and over the jump behind it, which jumps over other code. -/
  | choice {around : Option Around} {place : Nat} {jump skip : Line} {xs ys : List Line}
      (hjump : jump.opcode.isJump) (hop1 : jump.op1 = stride * (place + xs.length + 2))
      (hx : Looping around (place + 1) xs) (hskip : skip.opcode.isJump)
      (hop1' : skip.op1 = stride * (place + xs.length + 2 + ys.length))
      (hy : Looping around (place + xs.length + 2) ys) :
      Looping around place (jump :: (xs ++ skip :: ys))
  /-- A jump back to the head of the loop. -/
  | back {around : Around} {place : Nat} {jump : Line} (hjump : jump.opcode.isJump)
      (hop1 : jump.op1 = stride * around.head) : Looping (some around) place [jump]
  /-- A record that appends to the result of the loop. -/
  | collect {around : Around} {place : Nat} {l : Line} (hop : l.opcode = .listAppend)
      (hdst : l.dst = around.result) : Looping (some around) place [l]
  /-- A loop in a scope of its own, behind which its result is moved. -/
  | loop {around : Option Around} {place result : Nat} {enter next leave move : Line}
      {xs : List Line} (henter : enter.opcode = .scopePush) (hnext : next.opcode = .iterNext)
      (hop2 : next.op2 = stride * (place + xs.length + 2))
      (hx : Looping (some ⟨place + 1, result⟩) (place + 2) xs) (hleave : leave.opcode = .scopePop)
      (hmove : move.opcode = .move) (hop1 : move.op1 = result) :
      Looping around place (enter :: next :: (xs ++ [leave, move]))

section

variable {place k head exit : Nat} {enter next leave move jump skip l : Line} {xs ys : List Line}

/-- The lines of a choice: two jumps, and the codes behind them. -/
theorem lineAt_choice : LineAt place (jump :: (xs ++ skip :: ys)) k l ↔
    k = place ∧ l = jump ∨ LineAt (place + 1) xs k l ∨ k = place + xs.length + 1 ∧ l = skip ∨
      LineAt (place + xs.length + 2) ys k l := by
  have hskip : place + 1 + xs.length = place + xs.length + 1 := by omega
  simp only [lineAt_cons, lineAt_append, hskip, Nat.add_assoc, Nat.reduceAdd]

/-- The loops of a choice are those of its two codes. -/
theorem loopAt_choice (hjump : jump.opcode.isJump) (hskip : skip.opcode.isJump) :
    LoopAt place (jump :: (xs ++ skip :: ys)) head exit ↔
      LoopAt (place + 1) xs head exit ∨ LoopAt (place + xs.length + 2) ys head exit := by
  have hlength : place + 1 + xs.length + 1 = place + xs.length + 2 := by omega
  simp only [loopAt_cons, loopAt_append, Opcode.ne_iterNext_of_isJump hjump,
    Opcode.ne_iterNext_of_isJump hskip, false_and, and_false, false_or, hlength]

/-- The lines of a loop: two before its body, and two behind it. -/
theorem lineAt_loop : LineAt place (enter :: next :: (xs ++ [leave, move])) k l ↔
    k = place ∧ l = enter ∨ k = place + 1 ∧ l = next ∨ LineAt (place + 2) xs k l ∨
      k = place + xs.length + 2 ∧ l = leave ∨ k = place + xs.length + 3 ∧ l = move := by
  have hleave : place + 2 + xs.length = place + xs.length + 2 := by omega
  simp only [lineAt_cons, lineAt_append, not_lineAt_nil, or_false, Nat.add_assoc, Nat.reduceAdd,
    hleave]

/-- The loops of a loop are itself and those of its body. -/
theorem loopAt_loop (henter : enter.opcode = .scopePush) (hnext : next.opcode = .iterNext)
    (hop2 : next.op2 = stride * (place + xs.length + 2)) (hleave : leave.opcode = .scopePop)
    (hmove : move.opcode = .move) :
    LoopAt place (enter :: next :: (xs ++ [leave, move])) head exit ↔
      head = place + 1 ∧ exit = place + xs.length + 2 ∨ LoopAt (place + 2) xs head exit := by
  have hexit : stride * (place + xs.length + 2) = stride * exit ↔ exit = place + xs.length + 2 := by
    rw [stride_inj, eq_comm]
  have hplace : place + 1 + 1 = place + 2 := rfl
  simp only [loopAt_cons, loopAt_append, not_loopAt_nil, henter, hnext, hop2, hleave, hmove, hexit,
    hplace, reduceCtorEq, false_and, and_false, true_and, false_or, or_false]

end

/-- Where a record at a place among some lines may lead: forward, to the head of a loop that it is
    in, or to the head of the loop around. -/
def Leads (around : Option Around) (place : Nat) (lines : List Line) (k t : Nat) : Prop :=
  k < t ∧ t ≤ place + lines.length ∨ (t ≤ k ∧ ∃ exit, LoopAt place lines t exit ∧ k < exit) ∨
    ∃ a ∈ around, t = a.head

/-- Where records lead in a part of some code, they lead in the code. -/
theorem Leads.mono {around : Option Around} {place place' k t : Nat} {xs ys : List Line}
    (h : Leads around place xs k t) (hlength : place + xs.length ≤ place' + ys.length)
    (hloops : ∀ exit, LoopAt place xs t exit → LoopAt place' ys t exit) :
    Leads around place' ys k t := by
  rcases h with ⟨hk, ht⟩ | ⟨hk, exit, hloop, hexit⟩ | h
  · exact .inl ⟨hk, Nat.le_trans ht hlength⟩
  · exact .inr (.inl ⟨hk, exit, hloops exit hloop, hexit⟩)
  · exact .inr (.inr h)

namespace Looping

variable {around : Option Around} {place k n head exit : Nat} {lines : List Line} {l : Line}

/-- A record leads forward or to the head of a loop that it is in. -/
theorem leads (h : Looping around place lines) (hl : LineAt place lines k l) (hn : n ∈ l.targets) :
    ∃ t, n = stride * t ∧ Leads around place lines k t := by
  induction h generalizing k with
  | nil => exact absurd hl not_lineAt_nil
  | append _ _ ihx ihy =>
    rcases lineAt_append.1 hl with hl | hl
    · obtain ⟨t, ht, hleads⟩ := ihx hl
      exact ⟨t, ht, hleads.mono (by simp) fun _ h => loopAt_append.2 (.inl h)⟩
    · obtain ⟨t, ht, hleads⟩ := ihy hl
      exact ⟨t, ht, hleads.mono (by simp [Nat.add_assoc]) fun _ h => loopAt_append.2 (.inr h)⟩
  | straight h =>
    obtain ⟨-, rfl⟩ := lineAt_singleton.1 hl
    simp [Line.targets_of_straight h] at hn
  | forward hjump hop1 _ ih =>
    rcases lineAt_cons.1 hl with ⟨rfl, rfl⟩ | hl
    · rw [Line.targets_of_isJump hjump, List.mem_singleton, hop1] at hn
      exact ⟨_, hn, .inl ⟨by omega, by simp [Nat.add_assoc]⟩⟩
    · obtain ⟨t, ht, hleads⟩ := ih hl
      exact ⟨t, ht, hleads.mono (by simp; omega) fun _ h => loopAt_cons.2 (.inr h)⟩
  | choice hjump hop1 _ hskip hop1' _ ihx ihy =>
    rcases lineAt_choice.1 hl with ⟨rfl, rfl⟩ | hl | ⟨rfl, rfl⟩ | hl
    · rw [Line.targets_of_isJump hjump, List.mem_singleton, hop1] at hn
      exact ⟨_, hn, .inl ⟨by omega, by simp; omega⟩⟩
    · obtain ⟨t, ht, hleads⟩ := ihx hl
      exact ⟨t, ht, hleads.mono (by simp; omega) fun _ h => (loopAt_choice hjump hskip).2 (.inl h)⟩
    · rw [Line.targets_of_isJump hskip, List.mem_singleton, hop1'] at hn
      exact ⟨_, hn, .inl ⟨by omega, by simp; omega⟩⟩
    · obtain ⟨t, ht, hleads⟩ := ihy hl
      exact ⟨t, ht, hleads.mono (by simp; omega) fun _ h => (loopAt_choice hjump hskip).2 (.inr h)⟩
  | @back a _ _ hjump hop1 =>
    obtain ⟨-, rfl⟩ := lineAt_singleton.1 hl
    rw [Line.targets_of_isJump hjump, List.mem_singleton, hop1] at hn
    exact ⟨_, hn, .inr (.inr ⟨a, rfl, rfl⟩)⟩
  | collect hop =>
    obtain ⟨-, rfl⟩ := lineAt_singleton.1 hl
    simp [Line.targets, hop] at hn
  | @loop around place result enter next leave move xs henter hnext hop2 _ hleave hmove _ ih =>
    have hloops (head exit : Nat) : LoopAt place _ head exit ↔ _ :=
      loopAt_loop henter hnext hop2 hleave hmove
    rcases lineAt_loop.1 hl with ⟨rfl, rfl⟩ | ⟨rfl, rfl⟩ | hl | ⟨rfl, rfl⟩ | ⟨rfl, rfl⟩
    · simp [Line.targets, henter] at hn
    · rw [Line.targets_of_iterNext hnext, List.mem_singleton, hop2] at hn
      exact ⟨_, hn, .inl ⟨by omega, by simp; omega⟩⟩
    · obtain ⟨t, ht, hleads⟩ := ih hl
      refine ⟨t, ht, ?_⟩
      have hle := hl.le
      have hlt := hl.lt
      rcases hleads with ⟨hk, hend⟩ | ⟨hk, exit, hloop, hexit⟩ | ⟨a, ha, rfl⟩
      · exact .inl ⟨hk, by simp; omega⟩
      · exact .inr (.inl ⟨hk, exit, (hloops _ _).2 (.inr hloop), hexit⟩)
      · -- The head of the loop around is that of this loop.
        cases ha
        exact .inr (.inl ⟨by show place + 1 ≤ k; omega, _, (hloops _ _).2 (.inl ⟨rfl, rfl⟩),
          by omega⟩)
    · simp [Line.targets, hleave] at hn
    · simp [Line.targets, hmove] at hn

/-- A loop begins behind the record that enters its scope and ends before the one that leaves it,
    behind which its result is moved. -/
theorem shape (h : Looping around place lines) (hloop : LoopAt place lines head exit) :
    place < head ∧ head < exit ∧ exit + 1 < place + lines.length := by
  induction h with
  | nil => exact absurd hloop not_loopAt_nil
  | append _ _ ihx ihy =>
    rw [List.length_append]
    rcases loopAt_append.1 hloop with h | h
    · have := ihx h
      omega
    · have := ihy h
      omega
  | straight hop =>
    simp [loopAt_cons, not_loopAt_nil, Opcode.ne_iterNext_of_straight hop] at hloop
  | forward hjump _ _ ih =>
    have := ih (by simpa [loopAt_cons, Opcode.ne_iterNext_of_isJump hjump] using hloop)
    rw [List.length_cons]
    omega
  | choice hjump _ _ hskip _ _ ihx ihy =>
    rw [List.length_cons, List.length_append, List.length_cons]
    rcases (loopAt_choice hjump hskip).1 hloop with h | h
    · have := ihx h
      omega
    · have := ihy h
      omega
  | back hjump =>
    simp [loopAt_cons, not_loopAt_nil, Opcode.ne_iterNext_of_isJump hjump] at hloop
  | collect hop => simp [loopAt_cons, not_loopAt_nil, hop] at hloop
  | loop henter hnext hop2 _ hleave hmove _ ih =>
    simp only [List.length_cons, List.length_append, List.length_nil]
    rcases (loopAt_loop henter hnext hop2 hleave hmove).1 hloop with ⟨rfl, rfl⟩ | h
    · omega
    · have := ih h
      omega

/-- A record leads to the places of the code around it, or to the head of the loop around. -/
theorem bounds (h : Looping around place lines) (hl : LineAt place lines k l) {t : Nat}
    (ht : stride * t ∈ l.targets) :
    place < t ∧ t ≤ place + lines.length ∨ ∃ a ∈ around, t = a.head := by
  obtain ⟨t', heq, hleads⟩ := h.leads hl ht
  obtain rfl := stride_inj.1 heq
  have hle := hl.le
  have hlt := hl.lt
  rcases hleads with ⟨hk, hend⟩ | ⟨hk, exit, hloop, -⟩ | ha
  · exact .inl ⟨by omega, hend⟩
  · have := h.shape hloop
    exact .inl ⟨this.1, by omega⟩
  · exact .inr ha

/-! ## Closed loops -/

/-- How a record at a place that may lead to another one stands to a loop: if it is in the loop, it
    leads to a record in the loop or to its end, and else to none in the loop. -/
def Respects (head exit k t : Nat) : Prop :=
  (head ≤ k ∧ k < exit → head ≤ t ∧ t ≤ exit) ∧ (¬ (head ≤ k ∧ k < exit) → ¬ (head ≤ t ∧ t < exit))

/-- The records of code outside of a loop lead to none in it. -/
theorem respects_of_apart (h : Looping around place lines) (haround : ∀ a ∈ around, a.head < head)
    (hl : LineAt place lines k l) {t : Nat} (ht : stride * t ∈ l.targets)
    (hapart : place + lines.length < head ∨ exit ≤ place) : Respects head exit k t := by
  unfold Respects
  have := hl.le
  have := hl.lt
  rcases h.bounds hl ht with h | ⟨a, ha, rfl⟩
  · omega
  · have := haround a ha
    omega

/-- All records respect every loop of the code that they are in. -/
theorem respects (h : Looping around place lines) (haround : ∀ a ∈ around, a.head < place)
    (hloop : LoopAt place lines head exit) (hl : LineAt place lines k l) {t : Nat}
    (ht : stride * t ∈ l.targets) : Respects head exit k t := by
  have hhead := (h.shape hloop).1
  have haround' : ∀ a ∈ around, a.head < head := fun a ha => Nat.lt_trans (haround a ha) hhead
  induction h generalizing k with
  | nil => exact absurd hl not_lineAt_nil
  | @append around place xs ys hx hy ihx ihy =>
    rcases loopAt_append.1 hloop with hloop | hloop <;> rcases lineAt_append.1 hl with hl | hl
    · exact ihx haround hloop hl hhead haround'
    · -- The loop and the record are in different parts, which lie apart.
      have := hx.shape hloop
      exact hy.respects_of_apart haround' hl ht (by omega)
    · have := hy.shape hloop
      exact hx.respects_of_apart haround' hl ht (by omega)
    · have hlt (a : Around) (ha : a ∈ around) : a.head < place + xs.length :=
        Nat.lt_add_right _ (haround a ha)
      exact ihy hlt hloop hl (hy.shape hloop).1 haround'
  | straight hop =>
    obtain ⟨-, rfl⟩ := lineAt_singleton.1 hl
    simp [Line.targets_of_straight hop] at ht
  | forward hjump hop1 hx ih =>
    have hloop := by simpa [loopAt_cons, Opcode.ne_iterNext_of_isJump hjump] using hloop
    have hshape := hx.shape hloop
    rcases lineAt_cons.1 hl with ⟨rfl, rfl⟩ | hl
    · rw [Line.targets_of_isJump hjump, List.mem_singleton, hop1, stride_inj] at ht
      unfold Respects
      omega
    · exact ih (fun a ha => Nat.lt_succ_of_lt (haround a ha)) hloop hl hshape.1 haround'
  | @choice around place jump skip xs ys hjump hop1 hx hskip hop1' hy ihx ihy =>
    have hlt (a : Around) (ha : a ∈ around) : a.head < place + 1 := Nat.lt_succ_of_lt (haround a ha)
    have hlt' (a : Around) (ha : a ∈ around) : a.head < place + xs.length + 2 := by
      have := haround a ha
      omega
    rcases (loopAt_choice hjump hskip).1 hloop with hloop | hloop
    · have hshape := hx.shape hloop
      rcases lineAt_choice.1 hl with ⟨rfl, rfl⟩ | hl | ⟨rfl, rfl⟩ | hl
      · rw [Line.targets_of_isJump hjump, List.mem_singleton, hop1, stride_inj] at ht
        unfold Respects
        omega
      · exact ihx hlt hloop hl hshape.1 haround'
      · rw [Line.targets_of_isJump hskip, List.mem_singleton, hop1', stride_inj] at ht
        unfold Respects
        omega
      · exact hy.respects_of_apart haround' hl ht (by omega)
    · have hshape := hy.shape hloop
      rcases lineAt_choice.1 hl with ⟨rfl, rfl⟩ | hl | ⟨rfl, rfl⟩ | hl
      · rw [Line.targets_of_isJump hjump, List.mem_singleton, hop1, stride_inj] at ht
        unfold Respects
        omega
      · exact hx.respects_of_apart haround' hl ht (by omega)
      · rw [Line.targets_of_isJump hskip, List.mem_singleton, hop1', stride_inj] at ht
        unfold Respects
        omega
      · exact ihy hlt' hloop hl hshape.1 haround'
  | back hjump =>
    simp [loopAt_cons, not_loopAt_nil, Opcode.ne_iterNext_of_isJump hjump] at hloop
  | collect hop => simp [loopAt_cons, not_loopAt_nil, hop] at hloop
  | @loop _ place result _ _ _ _ xs henter hnext hop2 hx hleave hmove _ ih =>
    have hlt : ∀ a ∈ some (Around.mk (place + 1) result), a.head < place + 2 := by
      rintro a ⟨⟩
      exact Nat.lt_succ_self _
    rcases lineAt_loop.1 hl with ⟨rfl, rfl⟩ | ⟨rfl, rfl⟩ | hl | ⟨rfl, rfl⟩ | ⟨rfl, rfl⟩
    · simp [Line.targets, henter] at ht
    · rw [Line.targets_of_iterNext hnext, List.mem_singleton, hop2, stride_inj] at ht
      unfold Respects
      rcases (loopAt_loop henter hnext hop2 hleave hmove).1 hloop with ⟨rfl, rfl⟩ | hloop
      · omega
      · have := hx.shape hloop
        omega
    · rcases (loopAt_loop henter hnext hop2 hleave hmove).1 hloop with ⟨rfl, rfl⟩ | hloop
      · have := hl.le
        have := hl.lt
        unfold Respects
        rcases hx.bounds hl ht with h | ⟨a, ⟨⟩, rfl⟩
        · omega
        · simp only
          omega
      · have hhead := (hx.shape hloop).1
        exact ih hlt hloop hl hhead fun a ha => Nat.lt_trans (hlt a ha) hhead
    · simp [Line.targets, hleave] at ht
    · simp [Line.targets, hmove] at ht

/-- The intervals of two loops are disjoint, or one of them is inside the other one. -/
theorem nested (h : Looping around place lines) (haround : ∀ a ∈ around, a.head < place)
    {head' exit' : Nat} (hloop : LoopAt place lines head exit)
    (hloop' : LoopAt place lines head' exit') :
    exit ≤ head' ∨ exit' ≤ head ∨ head ≤ head' ∧ exit' ≤ exit ∨ head' ≤ head ∧ exit ≤ exit' := by
  obtain ⟨next, hl, hnext, hop2⟩ := hloop'
  have htarget : stride * exit' ∈ next.targets := hop2 ▸ Line.op2_mem_targets hnext
  have hshape := h.shape hloop
  have hshape' := h.shape ⟨next, hl, hnext, hop2⟩
  have hrespects := h.respects haround hloop hl htarget
  unfold Respects at hrespects
  omega

/-! ## Results -/

end Looping

/-- There is a loop among some lines behind whose scope a register is moved. -/
structure ResultAt (place : Nat) (lines : List Line) (head exit r : Nat) : Prop where
  loop : LoopAt place lines head exit
  leave : ∃ l, LineAt place lines exit l ∧ l.opcode = .scopePop
  move : ∃ l, LineAt place lines (exit + 1) l ∧ l.opcode = .move ∧ l.op1 = r

/-- The loops of a part of some code have their results in the code. -/
theorem ResultAt.mono {place place' head exit r : Nat} {xs ys : List Line}
    (h : ResultAt place xs head exit r)
    (hlines : ∀ k l, LineAt place xs k l → LineAt place' ys k l) :
    ResultAt place' ys head exit r := by
  obtain ⟨⟨next, hnext, hloop⟩, ⟨leave, hleave, hscope⟩, move, hmove, hresult⟩ := h
  exact ⟨⟨next, hlines _ _ hnext, hloop⟩, ⟨leave, hlines _ _ hleave, hscope⟩, move,
    hlines _ _ hmove, hresult⟩

/-- A place lies in a loop behind which a register is moved. -/
def BuildsAt (place : Nat) (lines : List Line) (r k : Nat) : Prop :=
  ∃ head exit, ResultAt place lines head exit r ∧ head ≤ k ∧ k < exit

theorem BuildsAt.mono {place place' r k : Nat} {xs ys : List Line} (h : BuildsAt place xs r k)
    (hlines : ∀ k l, LineAt place xs k l → LineAt place' ys k l) : BuildsAt place' ys r k := by
  obtain ⟨head, exit, hresult, hk⟩ := h
  exact ⟨head, exit, hresult.mono hlines, hk⟩

/-- A list that is appended to in code is the result of a loop that the record is in. -/
theorem Looping.appends {around : Option Around} {place k : Nat} {lines : List Line} {l : Line}
    (h : Looping around place lines) (hl : LineAt place lines k l) (hop : l.opcode = .listAppend) :
    BuildsAt place lines l.dst k ∨ ∃ a ∈ around, l.dst = a.result := by
  induction h generalizing k with
  | nil => exact absurd hl not_lineAt_nil
  | append _ _ ihx ihy =>
    rcases lineAt_append.1 hl with hl | hl
    · exact (ihx hl).imp_left (·.mono fun _ _ h => lineAt_append.2 (.inl h))
    · exact (ihy hl).imp_left (·.mono fun _ _ h => lineAt_append.2 (.inr h))
  | straight h =>
    obtain ⟨-, rfl⟩ := lineAt_singleton.1 hl
    rw [hop] at h
    exact h.elim
  | forward hjump _ _ ih =>
    rcases lineAt_cons.1 hl with ⟨-, rfl⟩ | hl
    · rw [hop] at hjump
      cases hjump
    · exact (ih hl).imp_left (·.mono fun _ _ h => lineAt_cons.2 (.inr h))
  | choice hjump _ _ hskip _ _ ihx ihy =>
    rcases lineAt_choice.1 hl with ⟨-, rfl⟩ | hl | ⟨-, rfl⟩ | hl
    · rw [hop] at hjump
      cases hjump
    · exact (ihx hl).imp_left (·.mono fun _ _ h => lineAt_choice.2 (.inr (.inl h)))
    · rw [hop] at hskip
      cases hskip
    · exact (ihy hl).imp_left (·.mono fun _ _ h => lineAt_choice.2 (.inr (.inr (.inr h))))
  | back hjump =>
    obtain ⟨-, rfl⟩ := lineAt_singleton.1 hl
    rw [hop] at hjump
    cases hjump
  | @collect a _ _ _ hdst =>
    obtain ⟨-, rfl⟩ := lineAt_singleton.1 hl
    exact .inr ⟨a, rfl, hdst⟩
  | @loop _ place result _ next leave move xs henter hnext hop2 _ hleave hmove hop1 ih =>
    rcases lineAt_loop.1 hl with ⟨-, rfl⟩ | ⟨-, rfl⟩ | hl | ⟨-, rfl⟩ | ⟨-, rfl⟩
    · simp [henter] at hop
    · simp [hnext] at hop
    · refine .inl ?_
      rcases ih hl with hbuilds | ⟨a, ⟨⟩, hdst⟩
      · exact hbuilds.mono fun _ _ h => lineAt_loop.2 (.inr (.inr (.inl h)))
      · -- What is built up around the body is the result of this loop.
        have hle := hl.le
        have hlt := hl.lt
        refine ⟨place + 1, place + xs.length + 2, ⟨?_, ⟨leave, ?_, hleave⟩, move, ?_, hmove,
          hop1.trans hdst.symm⟩, by omega, by omega⟩
        · exact (loopAt_loop henter hnext hop2 hleave hmove).2 (.inl ⟨rfl, rfl⟩)
        · exact lineAt_loop.2 (.inr (.inr (.inr (.inl ⟨rfl, rfl⟩))))
        · exact lineAt_loop.2 (.inr (.inr (.inr (.inr ⟨rfl, rfl⟩))))
    · simp [hleave] at hop
    · simp [hmove] at hop

end ExprMachine
