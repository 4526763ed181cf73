import ExprMachine.Proofs.Footprints
import ExprMachine.Proofs.OperatorTable
import ExprMachine.Proofs.Safety

/-!
# What guards are good for

A conditional jump falls through on a value that is not a boolean, and its guard is
there to reject the value. But guards are found by their places alone, and an execution
need not come by them: a jump may lead past the check; the program may return before it
gets to the operator, or jump around it, or write the register in between; and the
operator may not look at the register at all. So a sound program may return after it
has tested an integer (`Machine.tests_integer_returningEarly`).

A guard is *tight* if the records around the jump rule this out (`Layout.isTight`):

* no record leads past the check;
* the operator looks at the register, and the records between the jump and the operator
  neither return nor write the register, and lead to one another or to the operator
  only.

An execution that falls through in front of a tight operator stays between the two
(`Machine.Within.step`), and fails where the operator is applied, if it gets there. So
whenever a sound program with tight guards returns, it has tested booleans only
(`Machine.tests_booleans`).
-/

namespace ExprMachine

/-! ## Tight guards -/

/-- The offsets that a record may lead to, but for that of the record after it. -/
def Instruction.targets (i : Instruction) : List UInt32 :=
  (i.opcode.layout.zip i.slots).filterMap fun (operand, n) =>
    if operand = .target then some n else none

theorem Instruction.mem_targets {i : Instruction} {n : UInt32}
    (h : (Operand.target, n) ∈ i.opcode.layout.zip i.slots) : n ∈ i.targets :=
  List.mem_filterMap.2 ⟨_, h, rfl⟩

namespace Program

namespace Layout

variable (l : Layout)

/-- Whether no record leads to a position but the one before it. -/
def isFallenInto (index : Nat) : Bool :=
  l.records.all fun (_, i) => i.targets.all fun n => n.toNat ≠ stride * index

/-- Whether a record neither returns nor writes a register, and leads to positions
    between two others only. -/
def keeps (first last : Nat) (register : UInt32) (i : Instruction) : Bool :=
  i.opcode ≠ .return && !(i.opcode.writes && i.dst = register) &&
    i.targets.all fun n => stride * first ≤ n.toNat && n.toNat ≤ stride * last

/-- Whether a record applies `&&` or `||` to a register, with the result in the same
    register. -/
def joinsTested (i : Instruction) (register : UInt32) : Bool :=
  joins i register && (i.op1 = register || i.op3 = register)

/-- Whether the conditional jump at a position has a tight check before it. -/
def isTightlyChecked (index : Nat) (jump : Instruction) : Bool :=
  (l.before? index).any (checks · jump.dst) && l.isFallenInto index

/-- Whether the conditional jump at a position skips to after an operator that is tight. -/
def isTightlyJoined (index : Nat) (jump : Instruction) : Bool :=
  match l.indexOf? jump.op1.toNat with
  | some (join + 1) =>
    index < join && (l.record? join).any (joinsTested · jump.dst) &&
      l.records.zipIdx.all fun ((_, i), k) =>
        k ≤ index || join ≤ k || keeps (index + 1) join jump.dst i
  | _ => false

/-- Whether all conditional jumps have tight guards. -/
def isTight : Bool :=
  l.records.zipIdx.all fun ((_, i), index) =>
    !i.opcode.isConditionalJump || l.isTightlyChecked index i || l.isTightlyJoined index i

end Layout

/-- The record at a place is performed only after the check before it. -/
structure CheckedBefore (p : Program) (record : Nat → Instruction) (k : Nat) : Prop where
  check : ∃ n, k = n + 1 ∧ Layout.checks (record n) (record k).dst
  fallen : ∀ q < p.length, ∀ n ∈ (record q).targets, n.toNat ≠ stride * k

/-- The records after one place lead to the operator at another and leave a register as
    it is. -/
structure JoinedAt (record : Nat → Instruction) (k j : Nat) (r : UInt32) : Prop where
  lt : k < j
  join : Layout.joinsTested (record j) r
  keeps : ∀ q, k < q → q < j → Layout.keeps (k + 1) j r (record q)

variable {p : Program} {record : Nat → Instruction}

theorem Checked.getElem?_records (hp : p.Checked record) {k : Nat} (hk : k < p.length) :
    p.layout.records[k]? = some (stride * k, record k) := by
  rw [records_layout hp.fetch, List.getElem?_map, List.getElem?_range hk]
  rfl

theorem Checked.record?_layout (hp : p.Checked record) (k : Nat) :
    p.layout.record? k = if k < p.length then some (record k) else none := by
  rw [Layout.record?]
  split_ifs with hk
  · rw [hp.getElem?_records hk]
    rfl
  · have hlength : p.layout.records.length = p.length := by
      rw [records_layout hp.fetch, List.length_map, List.length_range]
    rw [List.getElem?_eq_none (by omega)]
    rfl

/-- What a tight program says of its conditional jumps. -/
theorem Checked.guard_of_isTight (hp : p.Checked record) (h : p.layout.isTight) {k : Nat}
    (hk : k < p.length) (hop : (record k).opcode.isConditionalJump) :
    p.CheckedBefore record k ∨ ∃ j < p.length, JoinedAt record k j (record k).dst := by
  have hmem {q : Nat} (hq : q < p.length) :
      ((stride * q, record q), q) ∈ p.layout.records.zipIdx :=
    List.mem_zipIdx_iff_getElem?.2 (hp.getElem?_records hq)
  have htight := List.all_eq_true.1 h _ (hmem hk)
  simp only [hop, Bool.not_true, Bool.false_or, Bool.or_eq_true] at htight
  -- Either the record before the jump checks its register, or the one before its target joins it.
  rcases htight with hchecked | hjoined
  · obtain ⟨hbefore, hfallen⟩ := Bool.and_eq_true_iff.1 hchecked
    refine .inl ⟨?_, fun q hq n hn => ?_⟩
    · cases k with
      | zero => cases hbefore
      | succ n =>
        rw [Layout.before?, hp.record?_layout, if_pos (Nat.lt_of_succ_lt hk)] at hbefore
        exact ⟨n, rfl, hbefore⟩
    · have hq := List.mem_of_getElem? (hp.getElem?_records hq)
      simpa using List.all_eq_true.1 (List.all_eq_true.1 hfallen _ hq) n hn
  · rw [Layout.isTightlyJoined] at hjoined
    split at hjoined
    · rename_i j _
      simp only [Bool.and_eq_true, decide_eq_true_eq, hp.record?_layout] at hjoined
      obtain ⟨⟨hlt, hjoin⟩, hkeeps⟩ := hjoined
      split_ifs at hjoin with hj
      · refine .inr ⟨j, hj, hlt, hjoin, fun q hkq hqj => ?_⟩
        have hq := List.all_eq_true.1 hkeeps _ (hmem (Nat.lt_trans hqj hj))
        simpa [Nat.not_le.2 hkq, Nat.not_le.2 hqj] using hq
      · cases hjoin
    · cases hjoined

end Program

/-! ## Operators reject -/

theorem Value.eq_bool_of_kind {v : Value} (h : v.kind = .bool) : ∃ b, v = .bool b := by
  cases v with
  | bool b => exact ⟨b, rfl⟩
  | _ => cases h

theorem Value.asBool?_of_kind_ne {v : Value} (h : v.kind ≠ .bool) : v.asBool? = none := by
  cases v with
  | bool b => exact absurd rfl h
  | _ => rfl

/-- The operators `&&` and `||` fail unless they are applied to two booleans. -/
theorem Standard.applyBinary_error {op : BinaryOperator} (hop : op.isShortCircuit) {v w : Value}
    (h : v.kind ≠ .bool ∨ w.kind ≠ .bool) (span : Span) :
    ∃ e, registry.applyBinary op.index v w span = .error e := by
  rw [Registry.applyBinary]
  cases hget : registry.table.get? op.index v.kind w.kind with
  | none => exact ⟨_, rfl⟩
  | some handler =>
    obtain ⟨hv, hw⟩ := kinds_of_isShortCircuit hop hget
    exact absurd h (by simp [hv, hw])

namespace Machine

open Exec

variable {m : Machine} {s t : State}

theorem checkCondition_error {v : Value} (h : v.kind ≠ .bool) (span : Span) (role : UInt32)
    (s : State) : ∃ e, checkCondition span v role s = .error e s := by
  unfold checkCondition
  split
  · exact absurd rfl h
  · cases ConditionRole.ofTag? role <;> exact ⟨_, rfl⟩

section

variable {i : Instruction} {span : Span} {r : UInt32}

/-- A check is passed with a boolean only, and nothing is done. -/
theorem At.of_checks (h : m.At s i span) (hcheck : Program.Layout.checks i r)
    (hstep : m.step s = .ok none t) : t = s.advance ∧ ∃ b, s.read? r = some (.bool b) := by
  obtain ⟨opcode, dst, a, role, c, k⟩ := i
  obtain ⟨rfl, rfl⟩ : opcode = .condCheck ∧ a = r := by simpa [Program.Layout.checks] using hcheck
  simp only [h.step_eq, perform] at hstep
  cases ha : s.read? a with
  | none =>
    rw [bind_error _ (read_error (s := s.advance) ha)] at hstep
    cases hstep
  | some v =>
    rw [read_bind (s := s.advance) _ ha] at hstep
    by_cases hv : v.kind = .bool
    · obtain ⟨b, rfl⟩ := Value.eq_bool_of_kind hv
      cases hstep
      exact ⟨rfl, b, rfl⟩
    · obtain ⟨e, he⟩ := checkCondition_error hv span role s.advance
      rw [bind_error _ he] at hstep
      cases hstep

/-- The execution does not go on from an operator that is applied to what is not a
    boolean. -/
theorem At.joinsTested_fails (hreg : m.registry = Standard.registry) (h : m.At s i span)
    (hjoin : Program.Layout.joinsTested i r) {w : Value} (hw : w.kind ≠ .bool)
    (hr : s.read? r = some w) : m.step s ≠ .ok none t := by
  obtain ⟨opcode, dst, a, index, c, k⟩ := i
  simp only [Program.Layout.joinsTested, Program.Layout.joins, Bool.and_eq_true, Bool.or_eq_true,
    decide_eq_true_eq] at hjoin
  obtain ⟨⟨⟨rfl, -⟩, hop⟩, hread⟩ := hjoin
  obtain ⟨op, hindex, hop⟩ := (Option.any_eq_true _ _).1 hop
  intro hstep
  simp only [h.step_eq, perform] at hstep
  cases ha : s.read? a with
  | none =>
    rw [bind_error _ (read_error (s := s.advance) ha)] at hstep
    cases hstep
  | some v =>
    rw [read_bind (s := s.advance) _ ha] at hstep
    cases hc : s.read? c with
    | none =>
      rw [bind_error _ (read_error (s := s.advance) hc)] at hstep
      cases hstep
    | some u =>
      -- The register that was tested is one of the two operands.
      have hkind : v.kind ≠ .bool ∨ u.kind ≠ .bool := by
        rcases hread with rfl | rfl
        · rw [ha] at hr
          cases hr
          exact .inl hw
        · rw [hc] at hr
          cases hr
          exact .inr hw
      obtain ⟨e, he⟩ := Standard.applyBinary_error hop hkind span
      rw [read_bind (s := s.advance) _ hc, hreg, ← BinaryOperator.index_of_ofIndex? hindex, he]
        at hstep
      cases hstep

/-- A conditional jump goes on only if its register has been written. -/
theorem At.exists_tested (h : m.At s i span) (hop : i.opcode.isConditionalJump)
    (hstep : m.step s = .ok none t) : ∃ w, s.read? i.dst = some w := by
  obtain ⟨opcode, dst, a, b, c, k⟩ := i
  cases hr : s.read? dst with
  | some w => exact ⟨w, rfl⟩
  | none =>
    have herror : read span dst s.advance = .error _ _ := read_error hr
    cases opcode with
    | jumpIfFalse | jumpIfTrue =>
      simp only [h.step_eq, perform] at hstep
      rw [bind_error _ herror] at hstep
      cases hstep
    | _ => cases hop

/-- A conditional jump on what is not a boolean falls through. -/
theorem At.falls_through (h : m.At s i span) (hop : i.opcode.isConditionalJump) {w : Value}
    (hw : w.kind ≠ .bool) (hr : s.read? i.dst = some w) : m.step s = .ok none s.advance := by
  obtain ⟨opcode, dst, a, b, c, k⟩ := i
  have hnone := Value.asBool?_of_kind_ne hw
  cases opcode with
  | jumpIfFalse =>
    rw [h.jumpIfFalse hr, hnone]
    rfl
  | jumpIfTrue =>
    rw [h.jumpIfTrue hr, hnone]
    rfl
  | _ => cases hop

end

/-! ## From a jump to its operator -/

section

variable {record : Nat → Instruction} (hp : m.program.Checked record)
include hp

/-- The record at a place of a program is the one to be performed there. -/
theorem at_of_checked {q : Nat} (hq : q < m.program.length) (hpc : s.pc = stride * q) :
    m.At s (record q) (m.program.span (record q).span) :=
  ⟨by rw [hpc, hp.fetch q hq], rfl⟩

/-- A step leads to the next record or to a target. -/
theorem goes_of_step {q : Nat} (hq : q < m.program.length)
    (hsize : s.registers.size = m.program.registers.toNat) (hpc : s.pc = stride * q)
    (hstep : m.step s = .ok none t) :
    t.pc = stride * (q + 1) ∨ ∃ n ∈ (record q).targets, t.pc = n.toNat := by
  have hsafe := safe_of_refers (s := s.advance) (hp.refers q hq) hsize
    (m.program.span (record q).span)
  have hdone := hsafe.of_ok ((at_of_checked hp hq hpc).step_eq ▸ hstep)
  rcases (hdone.goes rfl).2 with hnext | ⟨n, hn, htarget⟩
  · exact .inl (hnext.trans (congrArg (· + stride) hpc))
  · exact .inr ⟨n, Instruction.mem_targets hn, htarget⟩

end

/-- The execution is between a jump and the operator that guards it, and the register
    tested holds what it did. -/
structure Within (m : Machine) (k j : Nat) (r : UInt32) (w : Value) (s : State) : Prop where
  stands : m.Stands s
  place : ∃ q, k < q ∧ q ≤ j ∧ s.pc = stride * q
  holds : s.read? r = some w

namespace Within

variable {record : Nat → Instruction} {k j : Nat} {r : UInt32} {w : Value}

section

variable (hp : m.program.Checked record) (hj : j < m.program.length)
  (hjoined : Program.JoinedAt record k j r)
include hp hj hjoined

/-- From there it does not return. -/
theorem step_ne_some (h : m.Within k j r w s) (v : Value) : m.step s ≠ .ok (some v) t := by
  intro hstep
  obtain ⟨q, hkq, hqj, hpc⟩ := h.place
  have hreturn := opcode_of_step_eq_some (at_of_checked hp (by omega) hpc).fetch hstep
  rcases Nat.eq_or_lt_of_le hqj with rfl | hlt
  · have hjoin := hjoined.join
    simp [Program.Layout.joinsTested, Program.Layout.joins, hreturn] at hjoin
  · have hkeeps := hjoined.keeps q hkq hlt
    simp [Program.Layout.keeps, hreturn] at hkeeps

/-- It does not get away either. -/
theorem step (hreg : m.registry = Standard.registry) (hw : w.kind ≠ .bool)
    (h : m.Within k j r w s) (hstep : m.step s = .ok none t) : m.Within k j r w t := by
  obtain ⟨q, hkq, hqj, hpc⟩ := h.place
  have hq : q < m.program.length := by omega
  have hat := at_of_checked hp hq hpc
  -- The operator fails, so the record performed stands before it.
  have hne : q ≠ j := by
    rintro rfl
    exact hat.joinsTested_fails hreg hjoined.join hw h.holds hstep
  have hkeeps := hjoined.keeps q hkq (by omega)
  simp only [Program.Layout.keeps, Bool.and_eq_true, List.all_eq_true, decide_eq_true_eq] at hkeeps
  obtain ⟨⟨-, hwrites⟩, htargets⟩ := hkeeps
  have hstands := h.stands.of_reaches hp (.head hstep .refl)
  refine ⟨hstands, ?_, ?_⟩
  · rcases goes_of_step hp hq h.stands.size hpc hstep with hnext | ⟨n, hn, htarget⟩
    · exact ⟨q + 1, by omega, by omega, hnext⟩
    · -- The target is a record, so it lies between places as its offset does.
      obtain ⟨q', -, hpc'⟩ := hstands.pc
      have hbetween := htargets n hn
      simp only [stride] at *
      exact ⟨q', by omega, by omega, hpc'⟩
  · have hread : (m.step.final s).read? r = s.read? r := by
      refine observe_step (State.steady_read? r) fun i hi => ?_
      obtain rfl : record q = i := Except.ok.inj (hat.fetch.symm.trans hi)
      refine leaves_perform (State.steady_read? r) _ (fun hwrite s v => ?_)
        (fun _ _ _ => rfl) fun _ _ _ _ => rfl
      have hne : (record q).dst.toNat ≠ r.toNat := by
        intro heq
        simp [hwrite, UInt32.toNat_inj.1 heq] at hwrites
      simp [State.read?, hne]
    rw [final_ok hstep] at hread
    exact hread.trans h.holds

end

/-- So once it has fallen through a jump on what is not a boolean, it returns no more. -/
theorem of_reaches (hp : m.program.Checked record) (hj : j < m.program.length)
    (hjoined : Program.JoinedAt record k j r) (hreg : m.registry = Standard.registry)
    (hw : w.kind ≠ .bool) (h : m.Within k j r w s) (hreaches : m.Reaches s t) :
    m.Within k j r w t := by
  induction hreaches with
  | refl => exact h
  | tail _ hstep ih => exact ih.step hp hj hjoined hreg hw hstep

end Within

/-! ## Executions -/

/-- At a jump with a tight check, the register that it tests holds a boolean. -/
theorem bool_of_checkedBefore {record : Nat → Instruction} (hp : m.program.Checked record)
    {env : Environment} (hs : m.Reaches (.start m.program env) s) {k : Nat}
    (hk : k < m.program.length) (hpc : s.pc = stride * k)
    (hchecked : m.program.CheckedBefore record k) :
    ∃ b, s.read? (record k).dst = some (.bool b) := by
  obtain ⟨n, rfl, hcheck⟩ := hchecked.check
  -- The jump is not the first record, and only the check leads to it.
  rcases Relation.ReflTransGen.cases_tail hs with rfl | ⟨u, hu, hstep⟩
  · cases hpc
  · have hstands := (stands_start hp.pos env).of_reaches hp hu
    obtain ⟨q, hq, hupc⟩ := hstands.pc
    rcases goes_of_step hp hq hstands.size hupc hstep with hnext | ⟨n', hn', htarget⟩
    · obtain rfl : q = n := by
        simp only [stride] at *
        omega
      obtain ⟨rfl, hbool⟩ := (at_of_checked hp hq hupc).of_checks hcheck hstep
      exact hbool
    · exact absurd (htarget.symm.trans hpc) (hchecked.fallen q hq n' hn')

/-- At a jump to behind a tight operator, the register that it tests holds a boolean too, if
    the execution returns later. -/
theorem bool_of_joinedAt {record : Nat → Instruction} (hp : m.program.Checked record)
    (hreg : m.registry = Standard.registry) (hs : m.Stands s) {k j : Nat}
    (hk : k < m.program.length) (hpc : s.pc = stride * k)
    (hop : (record k).opcode.isConditionalJump) (hj : j < m.program.length)
    (hjoined : Program.JoinedAt record k j (record k).dst) {u : State} {v : Value}
    (hreaches : m.Reaches s u) (hends : m.Ends u (.ok v t)) :
    ∃ b, s.read? (record k).dst = some (.bool b) := by
  have hat := at_of_checked hp hk hpc
  -- The jump does not return, so the execution goes on from it.
  rcases Relation.ReflTransGen.cases_head hreaches with rfl | ⟨s', hstep, hrest⟩
  · rw [opcode_of_step_eq_some hat.fetch hends] at hop
    cases hop
  obtain ⟨w, hw⟩ := hat.exists_tested hop hstep
  by_cases hkind : w.kind = .bool
  · obtain ⟨b, rfl⟩ := Value.eq_bool_of_kind hkind
    exact ⟨b, hw⟩
  · have hfalls := hat.falls_through hop hkind hw
    obtain rfl : s.advance = s' := by
      rw [hstep] at hfalls
      cases hfalls
      rfl
    have hwithin : m.Within k j (record k).dst w s.advance :=
      ⟨hs.of_reaches hp (.head hstep .refl),
        ⟨k + 1, Nat.lt_succ_self k, hjoined.lt, congrArg (· + stride) hpc⟩, hw⟩
    have hlast := hwithin.of_reaches hp hj hjoined hreg hkind hrest
    exact absurd hends (hlast.step_ne_some hp hj hjoined v)

/-- Whenever a sound program whose guards are tight returns a value, with the standard
    operators, all values that its conditional jumps have tested were booleans. -/
theorem tests_booleans (hreg : m.registry = Standard.registry) (hsound : m.program.isSound)
    (htight : m.program.layout.isTight) {env : Environment} {fuel : Nat} {x : Execution}
    {v : Value} (hx : m.execute fuel env = some x) (hv : x.result = .ok v)
    (hs : m.Reaches (.start m.program env) s) {i : Instruction}
    (hfetch : m.program.fetch s.pc = .ok i) (hop : i.opcode.isConditionalJump) :
    ∃ b, s.read? i.dst = some (.bool b) := by
  obtain ⟨record, hp⟩ := Program.exists_checked hsound
  have hstands := (stands_start hp.pos env).of_reaches hp hs
  obtain ⟨k, hk, hpc⟩ := hstands.pc
  obtain rfl : record k = i :=
    Except.ok.inj ((at_of_checked hp hk hpc).fetch.symm.trans hfetch)
  obtain ⟨r, hr, rfl⟩ := exists_run_of_execute hx
  obtain ⟨u, hu, hends⟩ := exists_ends_of_run hr
  rcases hp.guard_of_isTight htight hk hop with hchecked | ⟨j, hj, hjoined⟩
  · exact bool_of_checkedBefore hp hs hk hpc hchecked
  · cases r with
    | ok w t =>
      have hrest := hu.of_ends hends hs
      exact bool_of_joinedAt hp hreg hstands hk hpc hop hj hjoined hrest hends
    | error e t => cases hv

/-- A program that skips the right operand of `&&` and then tests the result, after a
    check. Both of its guards are tight. -/
def guardedTwice : Program where
  code := (([⟨.loadFalse, 0, 0, 0, 0, 0⟩, ⟨.jumpIfFalse, 0, 24, 0, 0, 0⟩,
    ⟨.loadTrue, 1, 0, 0, 0, 0⟩, ⟨.binaryOp, 0, 0, 12, 1, 0⟩, ⟨.condCheck, 0, 0, 0, 0, 0⟩,
    ⟨.jumpIfTrue, 0, 42, 0, 0, 0⟩, ⟨.loadNull, 0, 0, 0, 0, 0⟩, ⟨.return, 0, 0, 0, 0, 0⟩] :
    List Instruction).flatMap Instruction.encode).toArray
  spans := #[Span.none]
  registers := 2

/-- The machine with the standard operations that executes it. -/
def guardedTwiceMachine : Machine := { registry := Standard.registry, program := guardedTwice }

/-- It returns, and what it tests on the way is a boolean. -/
theorem tests_booleans_guardedTwice : guardedTwice.isSound ∧ guardedTwice.layout.isTight ∧
    (∃ x v, guardedTwiceMachine.execute 7 {} = some x ∧ x.result = .ok v) ∧
    ∃ s, guardedTwiceMachine.Reaches (.start guardedTwice {}) s ∧ s.pc = 30 ∧
      ∃ b, s.read? 0 = some (.bool b) := by
  have hsound : guardedTwice.isSound := by decide +kernel
  have htight : guardedTwice.layout.isTight := by decide +kernel
  have hrun : (guardedTwiceMachine.execute 7 {}).any fun x => x.result.isOk := by decide +kernel
  obtain ⟨x, hx, hok⟩ := (Option.any_eq_true _ _).1 hrun
  obtain ⟨v, hv⟩ : ∃ v, x.result = .ok v := by
    cases hresult : x.result with
    | ok v => exact ⟨v, rfl⟩
    | error e =>
      rw [hresult] at hok
      cases hok
  have hstart : guardedTwiceMachine.At (.start guardedTwice {}) ⟨.loadFalse, 0, 0, 0, 0, 0⟩
      Span.none := ⟨rfl, rfl⟩
  have hjump : guardedTwiceMachine.At ((State.start guardedTwice {}).advance.set 0 (.bool false))
      ⟨.jumpIfFalse, 0, 24, 0, 0, 0⟩ Span.none := ⟨rfl, rfl⟩
  have hcheck : guardedTwiceMachine.At
      (((State.start guardedTwice {}).advance.set 0 (.bool false)).goto 24)
      ⟨.condCheck, 0, 0, ConditionRole.conditional.tag, 0, 0⟩ Span.none := ⟨rfl, rfl⟩
  have hreaches : guardedTwiceMachine.Reaches (.start guardedTwice {})
      (((State.start guardedTwice {}).advance.set 0 (.bool false)).goto 24).advance :=
    .head (hstart.loadFalse (by decide)) (.head (hjump.jumpIfFalse rfl)
      (.head (hcheck.condCheck rfl) .refl))
  have hfetch : guardedTwice.fetch 30 = .ok ⟨.jumpIfTrue, 0, 42, 0, 0, 0⟩ := rfl
  have htested := tests_booleans (m := guardedTwiceMachine) rfl hsound htight hx hv hreaches
    hfetch rfl
  exact ⟨hsound, htight, ⟨x, v, hx, hv⟩, _, hreaches, rfl, htested⟩

/-- A sound program that returns before it applies the operator that guards its jump. -/
def returningEarly : Program where
  code := (([⟨.loadConst, 0, 0, 0, 0, 0⟩, ⟨.jumpIfFalse, 0, 24, 0, 0, 0⟩,
    ⟨.return, 0, 0, 0, 0, 0⟩, ⟨.binaryOp, 0, 0, 12, 0, 0⟩, ⟨.return, 0, 0, 0, 0, 0⟩] :
    List Instruction).flatMap Instruction.encode).toArray
  constants := #[.int 1]
  spans := #[Span.none]
  registers := 1

/-- The machine with the standard operations that executes it. -/
def returningEarlyMachine : Machine :=
  { registry := Standard.registry, program := returningEarly }

/-- It is sound, and returns the integer that it has tested. -/
theorem tests_integer_returningEarly :
    ¬∀ (m : Machine), m.registry = Standard.registry → m.program.isSound →
      ∀ (env : Environment) (fuel : Nat) (x : Execution) (v : Value),
        m.execute fuel env = some x → x.result = .ok v →
          ∀ (s : State) (i : Instruction) (w : Value), m.Reaches (.start m.program env) s →
            m.program.fetch s.pc = .ok i → i.opcode.isConditionalJump →
              s.read? i.dst = some w → ∃ b, w = .bool b := by
  intro hall
  have hsound : returningEarly.isSound := by decide +kernel
  have hload : returningEarlyMachine.At (.start returningEarly {}) ⟨.loadConst, 0, 0, 0, 0, 0⟩
      Span.none := ⟨rfl, rfl⟩
  have hjump : returningEarlyMachine.At ((State.start returningEarly {}).advance.set 0 (.int 1))
      ⟨.jumpIfFalse, 0, 24, 0, 0, 0⟩ Span.none := ⟨rfl, rfl⟩
  have hreturn : returningEarlyMachine.At
      ((State.start returningEarly {}).advance.set 0 (.int 1)).advance
      ⟨.return, 0, 0, 0, 0, 0⟩ Span.none := ⟨rfl, rfl⟩
  have htested : returningEarlyMachine.Reaches (.start returningEarly {})
      ((State.start returningEarly {}).advance.set 0 (.int 1)) :=
    .head (hload.loadConst (by decide) rfl) .refl
  have hpassed : returningEarlyMachine.Reaches (.start returningEarly {})
      ((State.start returningEarly {}).advance.set 0 (.int 1)).advance :=
    htested.trans (.head (hjump.jumpIfFalse rfl) .refl)
  obtain ⟨n, hn⟩ := run_of_reaches (n := 1) hpassed (by rw [run, hreturn.return_eq rfl])
  obtain ⟨b, hb⟩ := hall returningEarlyMachine rfl hsound {} n _ _
    (Option.map_eq_some_iff.2 ⟨_, hn, rfl⟩) rfl _ _ _ htested hjump.fetch rfl rfl
  cases hb

end Machine

end ExprMachine
