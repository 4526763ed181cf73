import ExprMachine.Proofs.Turns

/-!
# Loops at work

A loop goes through the items of its iterator and takes a turn for each of them,
in a scope of its own. Two things hold at its head every time: the register of
the loop holds the result so far, and the variables are those outside, with a
scope inside that has at most the variable of the loop
(`Environment.Entered`).

The items of the iterator become fewer with every turn, and the code of a turn
leaves the iterator alone. So a comprehension computes what it evaluates to, if
its target and its bodies do (`Machine.Computes.comprehension`).
-/

namespace ExprMachine

open Build Evaluation

/-- The environment is that of a scope inside `outer` which has at most the
    variable `x`. -/
structure Environment.Entered (outer : Environment) (x : String) (env : Environment) : Prop where
  pop_eq : env.pop = outer
  bind_eq : ∀ v, env.bind x v = outer.push.bind x v

theorem Environment.entered_push (outer : Environment) (x : String) :
    outer.Entered x outer.push := ⟨rfl, fun _ => rfl⟩

theorem Environment.entered_bind (outer : Environment) (x : String) (w : Value) :
    outer.Entered x (outer.push.bind x w) where
  pop_eq := rfl
  bind_eq v := by
    show Environment.mk _ (Entries.insert [(x, w)] x v :: _) = _
    rw [Entries.insert, if_pos rfl]
    rfl

namespace Machine

variable {m : Machine} {d e : Draft} {F : Frame} {s t : State} {span : Span} {β : Type}
  {form : Comprehension Body} {hold : β → Value} {init : β} {env : Value → Environment}
  {turn : β → Value → Evaluation (β × Bool)}

/-- The code of a comprehension takes the turns of a loop: it begins with the
    first result, and takes a turn in the environment of every item. -/
structure Rounds (m : Machine) (form : Comprehension Body) (span : Span)
    (env : Value → Environment) (hold : β → Value) (init : β)
    (turn : β → Value → Evaluation (β × Bool)) : Prop where
  start : ∀ (d : Draft) (F : Frame) (s : State) (acc : Nat), acc < d.registers →
    m.Runs F (Lowering.start form acc span) d s (pure ()) fun _ t =>
      m.Ready (Lowering.start form acc span d).draft F t ∧ s.Agrees t acc ∧ t.Has acc (hold init)
  turn : ∀ (d e : Draft) (F : Frame) (s : State) (acc item : Nat) (b : β) (v : Value),
    F.env = env v → acc < d.registers → item < d.registers → s.Has item v →
    s.held? (.ofNat acc) = some (hold b) →
    m.Runs F (Lowering.loopBody form acc item (stride * e.records) span) d s (turn b v)
      (m.Turned hold acc e (Lowering.loopBody form acc item (stride * e.records) span d).draft F s)

/-! ## The loop -/

theorem Emits.ne {opcode : Opcode} {dst a b c r q : Nat}
    (h : m.Emits d F s opcode dst a b c span) (hr : r < d.registers) (hq : q < d.registers)
    (hne : r ≠ q) : UInt32.ofNat r ≠ .ofNat q := by
  intro heq
  rw [← h.covers.toNat_register hr, heq, h.covers.toNat_register hq] at hne
  exact hne rfl

/-- The record that takes an item leaves the rest in the iterator, and the
    register of the loop as it is. -/
theorem Emits.next {item it acc exit : Nat} {v : Value} {rest : List Value}
    (h : m.Emits d F s .iterNext item it exit 0 span) (hit : it < acc) (hacc : acc < item)
    (hitem : item < d.registers) (hitems : s.iterators.get? (.ofNat it) = some (v :: rest)) :
    ∃ t, m.step s = .ok none t ∧ t.idempotent = s.idempotent ∧ m.Ready (reserved d span) F t ∧
      s.Agrees t it ∧ t.iterators.get? (.ofNat it) = some rest ∧
      t.held? (.ofNat acc) = s.held? (.ofNat acc) ∧ t.Has item v := by
  have hlt := Nat.lt_trans hacc hitem
  have hne : UInt32.ofNat item ≠ .ofNat acc := h.ne hitem hlt (Nat.ne_of_gt hacc)
  have hne' : UInt32.ofNat it ≠ .ofNat acc := h.ne (Nat.lt_trans hit hlt) hlt (Nat.ne_of_lt hit)
  have hsize := h.lt_size hitem
  refine ⟨_, h.record.iterNext_cons hsize hitems, rfl, ?_, ?_, ?_, ?_, State.has_set hsize⟩
  · exact h.ready_advance (State.size_set _ _ _) rfl rfl rfl
  · have hiterate : s.Agrees (s.advance.iterate (.ofNat it) rest) it :=
      State.agrees_iterate (h.le_toNat (Nat.lt_trans hit hlt) (Nat.le_refl it))
    have hset := h.le_toNat hitem (Nat.le_of_lt (Nat.lt_trans hit hacc))
    exact hiterate.trans (State.agrees_set hset) (Nat.le_refl it)
  · show (Entries.insert _ _ _).get? _ = _
    rw [Entries.get?_insert, if_pos rfl]
  · exact State.held?_of_cell ((State.cell_set_of_ne hne).trans (State.cell_iterate_of_ne hne'))

section

variable {outer : Environment} {n : Nat} {x : String} {it acc : Nat}
  (hform : ∀ b ∈ form.bodies, Lawful b.build)
include hform

/-- One turn of the loop, from the record that binds the variable on. -/
theorem follows_turn (h : m.Rounds form span (fun v => outer.push.bind x v) hold init turn)
    {inside : Environment} (hinside : outer.Entered x inside) {item : Nat} {b : β} {v : Value}
    (hl : m.program.Loads d (Lowering.turn x form acc item (stride * e.records) span d))
    (hs : m.Ready d ⟨inside, n + 1⟩ s) (hacc : acc < d.registers) (hlt : item < d.registers)
    (hitem : s.Has item v) (hheld : s.held? (.ofNat acc) = some (hold b)) :
    m.Follows ⟨outer, n⟩ (turn b v) s
      (m.Turned hold acc e (Lowering.turn x form acc item (stride * e.records) span d).draft
        ⟨outer.push.bind x v, n + 1⟩ s) := by
  have hlawful := Lowering.lawful_loopBody form hform
  have hl' := hl.right
  have hi : m.Emits _ _ s .bindVar 0 _ item 0 span :=
    .of_holds (d := (string x d).draft) hl'.left.holds hl'.left.covers (hs.of_records rfl)
  have hstep := hi.record.bindVar (hi.covers.string hi.op1 (getElem?_intern d.strings x)) hitem.read
  have hready : m.Ready (reserved (string x d).draft span) ⟨outer.push.bind x v, n + 1⟩
      (s.advance.bind v x) := by
    refine ⟨hi.ready_next.pc, hs.size, ?_, hs.openScopes⟩
    show s.env.bind x v = _
    rw [hs.env]
    exact hinside.bind_eq v
  have hrun := Runs.follows hl'.right hready <| h.turn _ e _ _ acc item b v rfl hacc hlt
    ⟨hitem.read, hitem.pending⟩ hheld
  refine .step hstep rfl ((hrun.rebase fun u hu => hu.leave).mono fun _ _ ht => ?_)
  exact ht.of_agrees (s := s) (.refl s acc)

/-- The loop takes its turns for all items that are still to come. -/
theorem follows_loop (h : m.Rounds form span (fun v => outer.push.bind x v) hold init turn)
    (hl : m.program.Loads d (Lowering.loop x form it acc span d)) (hit : it < acc)
    (hacc : acc < d.registers) {inside : Environment} (hinside : outer.Entered x inside)
    (items : List Value) (b : β) (hs : m.Ready d ⟨inside, n + 1⟩ s)
    (hitems : s.iterators.get? (.ofNat it) = some items)
    (hheld : s.held? (.ofNat acc) = some (hold b)) :
    m.Follows ⟨outer, n⟩ (iterate turn b items) s fun r t =>
      (∃ inside, outer.Entered x inside ∧
        m.Ready (Lowering.loop x form it acc span d).draft ⟨inside, n + 1⟩ t) ∧
      s.Agrees t it ∧ t.held? (.ofNat acc) = some (hold r) := by
  have hlawful := Lowering.lawful_turn x form hform
  have hl' := hl.right.right
  induction items generalizing b s inside with
  | nil =>
    have hi := emits_of_skipping (d := (fresh d).draft) hl' (hs.of_records rfl) rfl
    refine .step (hi.record.iterNext_nil hitems) rfl (.pure ?_)
    exact ⟨⟨inside, hinside, hi.ready_goto hi.op2⟩, .refl s it, hheld⟩
  | cons v rest ih =>
    have hi := emits_of_skipping (d := (fresh d).draft) hl' (hs.of_records rfl) rfl
    have hlt : acc < (fresh d).draft.registers := Nat.lt_succ_of_lt hacc
    obtain ⟨t, hstep, hid, hready, hst, hrest, hheld', hitem⟩ :=
      hi.next hit hacc (Nat.lt_succ_self _) hitems
    refine .step hstep hid ?_
    rw [iterate]
    refine .bind (follows_turn (e := d) hform h hinside (loads_of_skipping hl') hready hlt
      (Nat.lt_succ_self _) hitem (hheld'.trans hheld)) ?_
    rintro ⟨c, decided⟩ u hu
    have hsu : s.Agrees u it := hst.trans hu.agrees (Nat.le_of_lt hit)
    cases decided with
    | true => exact .pure ⟨⟨_, outer.entered_bind x v, hu.ready⟩, hsu, hu.held⟩
    | false =>
      -- The code of the turn leaves the iterator as it is, so that the rest of
      -- the items is still to come.
      have hrest' := (hu.agrees.iterators hit).trans hrest
      refine (ih (outer.entered_bind x v) c hu.ready hrest' hu.held).mono ?_
      exact fun _ _ hw => ⟨hw.1, hsu.trans hw.2.1 (Nat.le_refl it), hw.2.2⟩

/-! ## Comprehensions -/

omit hform in
/-- Moving the result of a loop ends the list under construction. -/
theorem runs_moveHeld {acc : Nat} {w : Value} (hheld : s.held? (.ofNat acc) = some w)
    (hit : it < acc) (hacc : acc < d.registers) :
    m.Runs F (do
      let result ← fresh
      emit .move result acc 0 0 span
      pure result) d s (pure w) fun w t =>
        m.Ready (reserved (fresh d).draft span) F t ∧ s.Agrees t it ∧ t.Has d.registers w := by
  refine .prepare rfl rfl (.andPure (.emit fun h => ?_))
  have hdst : d.registers < (fresh d).draft.registers := Nat.lt_succ_self _
  have hsize := h.lt_size hdst
  refine .step (h.record.move hsize hheld) rfl (.pure ⟨?_, ?_, State.has_set hsize⟩)
  · exact h.ready_advance (State.size_set _ _ _) rfl rfl rfl
  · have hrelease : s.Agrees (s.advance.release (.ofNat acc)) it :=
      State.agrees_release (h.le_toNat (Nat.lt_succ_of_lt hacc) (Nat.le_of_lt hit))
    have hset := h.le_toNat hdst (Nat.le_of_lt (Nat.lt_trans hit hacc))
    exact hrelease.trans (State.agrees_set hset) (Nat.le_refl it)

section

variable {opcode : Opcode} {dst a b c : Nat}

omit hform in
theorem Emits.ready_enter (h : m.Emits d F s opcode dst a b c span) :
    m.Ready (reserved d span) ⟨F.env.push, F.depth + 1⟩ s.advance.enter where
  pc := h.ready_next.pc
  size := h.ready.size
  env := congrArg Environment.push h.ready.env
  openScopes := congrArg (· + 1) h.ready.openScopes

omit hform in
theorem Emits.ready_leave {inside : Environment}
    (h : m.Emits d ⟨inside, n + 1⟩ s opcode dst a b c span) :
    m.Ready (reserved d span) ⟨inside.pop, n⟩ s.advance.leave where
  pc := h.ready_next.pc
  size := h.ready.size
  env := congrArg Environment.pop h.ready.env
  openScopes := congrArg (· - 1) h.ready.openScopes

end

/-- A comprehension over the items of an iterator. -/
theorem runs_rounds (h : m.Rounds form span (fun v => F.env.push.bind x v) hold init turn)
    (hit : it < d.registers) {items : List Value}
    (hitems : s.iterators.get? (.ofNat it) = some items) :
    m.Runs F (Lowering.rounds x form it span) d s (hold <$> iterate turn init items) fun w t =>
      m.Ready (Lowering.rounds x form it span d).draft F t ∧ s.Agrees t it ∧
        t.Has (Lowering.rounds x form it span d).value w := by
  have hlawful := Lowering.lawful_loop x form hform
  have hdst : d.registers < (fresh d).draft.registers := Nat.lt_succ_self _
  rw [Lowering.rounds]
  refine .prepare rfl rfl ?_
  refine Runs.bind (g := fun _ => hold <$> iterate turn init items)
    (h.start (fresh d).draft F s d.registers hdst) fun _ t ht => .emitThen fun hpush hl => ?_
  obtain ⟨hst, hhas⟩ := ht
  have hstart : (fresh d).draft.registers ≤
      (Lowering.start form d.registers span (fresh d).draft).draft.registers :=
    (precedes _).registers
  -- The iterator is before the register of the loop, which alone has been
  -- written.
  have hitems' := (hst.iterators hit).trans hitems
  refine .step hpush.record.scopePush rfl ?_
  rw [map_eq_pure_bind]
  refine .bind (follows_loop hform h hl.left hit ?_ (F.env.entered_push x) items init
    hpush.ready_enter hitems' hhas.held) fun r u hu => ?_
  · exact Nat.lt_of_lt_of_le hdst hstart
  obtain ⟨⟨inside, hinside, hend⟩, htu, hheld⟩ := hu
  have hpop : m.Emits _ ⟨inside, F.depth + 1⟩ u .scopePop 0 0 0 0 span :=
    .of_holds hl.right.left.holds hl.right.left.covers hend
  have hopen : u.openScopes ≠ 0 := by
    rw [hend.openScopes]
    exact Nat.succ_ne_zero _
  -- The scope is left whose variables are those outside.
  have hleft := hpop.ready_leave
  rw [hinside.pop_eq] at hleft
  refine .step (hpop.record.scopePop hopen) rfl ?_
  refine Runs.follows hl.right.right hleft (Runs.mono (runs_moveHeld hheld hit ?_) ?_)
  · exact Nat.lt_of_lt_of_le hdst (Nat.le_trans hstart
      (precedes (x := Lowering.loop x form it d.registers span) (reserved _ span)).registers)
  · intro w q hq
    have hsu : s.Agrees u it := (hst.mono (Nat.le_of_lt hit)).trans (u := u) htu (Nat.le_refl it)
    exact ⟨hq.1, hsu.trans hq.2.1 (Nat.le_refl it), hq.2.2⟩

/-- A comprehension computes the loop that its code takes the turns of. -/
theorem Computes.comprehension {target : Build Nat} {ev : Environment → Evaluation Value}
    {turn : Environment → β → Value → Evaluation (β × Bool)}
    {result : Environment → List Value → Evaluation Value} [Valued target]
    (hx : m.Computes target ev)
    (h : ∀ env, m.Rounds form span (fun v => env.push.bind x v) hold init (turn env))
    (hresult : ∀ env items, result env items = hold <$> iterate (turn env) init items) :
    m.Computes (Lowering.comprehension target x form span) (fun env => do
      result env (← ofResult ((← ev env).items span))) := by
  have hvalued := Lowering.valued_rounds x form hform
  rw [Lowering.comprehension_eq]
  intro d F s
  refine hx.andThen fun v t hv => .prepare rfl rfl (.emitThen fun hi hl => ?_)
  have hstep := hi.record.iterInit hv.has.read
  cases hitems : v.items span with
  | error e =>
    rw [hitems] at hstep
    exact .fail hstep rfl hi.unwinds
  | ok items =>
    rw [hitems] at hstep
    have hlt : (target d).draft.registers <
        (reserved (fresh (target d).draft).draft span).registers := Nat.lt_succ_self _
    let u := t.advance.iterate (.ofNat (target d).draft.registers) items
    -- The iterator is in a register of its own, behind that of the target.
    have htu : t.Agrees u (target d).draft.registers :=
      State.agrees_iterate (hi.le_toNat hlt (Nat.le_refl _))
    have hready := hi.ready_advance (t := u) rfl rfl rfl rfl
    have hitems : u.iterators.get? (.ofNat (target d).draft.registers) = some items :=
      (Entries.get?_insert _ _ _ _).trans (if_pos rfl)
    refine .step hstep rfl (Runs.follows hl hready ?_)
    show m.Runs F _ _ _ (result F.env items) _
    rw [hresult]
    exact (runs_rounds hform (h F.env) hlt hitems).mono fun w q hq =>
      ⟨hq.1, htu.trans hq.2.1 (Nat.le_refl _), hq.2.2⟩

end

/-! ## The forms of comprehension -/

/-- The comprehensions that give a list start from the empty one. -/
theorem runs_startList {acc : Nat} (hacc : acc < d.registers) :
    m.Runs F (emit .makeList acc acc 0 0 span) d s (pure ()) fun _ t =>
      m.Ready (reserved d span) F t ∧ s.Agrees t acc ∧ t.Has acc (.list []) := by
  refine .putLast hacc (fun h hd => ?_) fun t hready hst hhas => ⟨hready, hst, hhas⟩
  have hlen : (UInt32.ofNat 0).toNat = ([] : List Value).length := rfl
  exact h.record.makeList hd hlen (Nat.le_of_lt (UInt32.toNat_lt_size _)) (by simp)

section

variable {p b : Body} {ev ev' : Environment → Evaluation Value} [Valued p.build] [Valued b.build]

/-- `exists` seeks an item that passes the test, and `all` one that does not. -/
theorem rounds_seek (hp : m.Computes p.build ev) (stop : Bool) :
    m.Rounds (if stop then .exists p else .all p) span env .bool (!stop)
      (seekTurn (passes .predicate p.span fun v => ev (env v)) stop) where
  start d F s acc hacc := by
    cases stop with
    | true =>
      exact .putLast hacc (fun h hd => h.record.loadFalse hd) fun t hready hst hhas =>
        ⟨hready, hst, hhas⟩
    | false =>
      exact .putLast hacc (fun h hd => h.record.loadTrue hd) fun t hready hst hhas =>
        ⟨hready, hst, hhas⟩
  turn d e F s acc item r v hF hacc hlt hitem hheld := by
    have hrun := runs_seek span (F := F) (e := e) hp hacc stop r hheld v
    rw [hF] at hrun
    cases stop <;> exact hrun

theorem rounds_existsOne (hp : m.Computes p.build ev) :
    m.Rounds (.existsOne p) span env .bool false
      (singleTurn (passes .predicate p.span fun v => ev (env v))) where
  start d F s acc hacc :=
    .putLast hacc (fun h hd => h.record.loadFalse hd) fun t hready hst hhas => ⟨hready, hst, hhas⟩
  turn d e F s acc item r v hF hacc hlt hitem hheld := by
    have hrun := runs_keeping .bool .predicate span (F := F) (e := e) hp v hacc hheld
      (g := if r then pure (false, true) else pure (true, false))
      (x := Lowering.count acc (stride * e.records) span) fun e' t he hst =>
        runs_count (Nat.lt_of_lt_of_le hacc he) r (has_of_held?_bool ((hst.held hacc).trans hheld))
    rw [hF] at hrun
    exact hrun

theorem rounds_filter (hp : m.Computes p.build ev) :
    m.Rounds (.filter p) span env .list [] (collectTurn fun item => do
      if ← passes .filter p.span (fun v => ev (env v)) item then return some (← pure item)
      else return none) where
  start _ _ _ _ hacc := runs_startList hacc
  turn d e F s acc item r v hF hacc hlt hitem hheld := by
    have hrun := runs_keeping .list .filter span (F := F) (e := e) hp v hacc hheld
      (g := pure (r ++ [v], false))
      (x := Lowering.append acc item (stride * e.records) span) fun e' t he hst =>
        runs_append (Nat.lt_of_lt_of_le hacc he) (hitem.of_agrees hst hlt)
          ((hst.held hacc).trans hheld)
    rw [hF] at hrun
    rw [collectTurn_keep]
    exact hrun

theorem rounds_transform (hb : m.Computes b.build ev) :
    m.Rounds (.transform b) span env .list []
      (collectTurn fun item => do return some (← ev (env item))) where
  start _ _ _ _ hacc := runs_startList hacc
  turn d e F s acc item r v hF hacc hlt hitem hheld := by
    have hrun := runs_transform span (F := F) (e := e) hb hacc hheld
    rw [hF] at hrun
    rw [collectTurn, bind_assoc]
    exact hrun

theorem rounds_filterTransform (hp : m.Computes p.build ev) (hb : m.Computes b.build ev') :
    m.Rounds (.filterTransform p b) span env .list [] (collectTurn fun item => do
      if ← passes .filter p.span (fun v => ev (env v)) item then return some (← ev' (env item))
      else return none) where
  start _ _ _ _ hacc := runs_startList hacc
  turn d e F s acc item r v hF hacc hlt hitem hheld := by
    have hrun := runs_keeping .list .filter span (F := F) (e := e) hp v hacc hheld
      fun e' t he hst =>
        runs_transform span hb (Nat.lt_of_lt_of_le hacc he) ((hst.held hacc).trans hheld)
    rw [hF] at hrun
    rw [collectTurn_keep]
    exact hrun

end

end Machine

end ExprMachine
