import ExprMachine.Proofs.Tracks

/-!
# The code of constructs tracks the registers

The code of every construct tracks what is known of the registers if the code of its
parts does, wherever that is built and for however many steps, and its value holds
the same in both machines. One statement for each form of code; where the code
begins, nothing needs to be known but what has been handed out.

In the loop of a comprehension over a list, the result is known to be a list under
construction (`Comprehension.likeness`). The loop goes back to its beginning, so the
statement about it is by induction on the number of steps (`Lowering.tracks_loop`).
The list is moved only behind the loop, and its register is forgotten then
(`Lowering.tracks_rounds`).
-/

namespace ExprMachine

open Build Machine

/-- What is known of the result of a comprehension in its loop. -/
def Comprehension.likeness {β : Type} : Comprehension β → Likeness
  | .all _ | .exists _ | .existsOne _ => .same
  | .filter _ | .transform _ | .filterTransform _ _ => .list

/-- Something is known of the result of every form. -/
theorem Comprehension.likeness_ne_unknown {β : Type} (form : Comprehension β) :
    form.likeness ≠ .unknown := by
  cases form <;> nofun

namespace Lowering

variable {m : Machine} {n : Nat} {d : Draft} {V : View} {x y : Build Nat} {regs : List Nat}
  {s : Span}

/-! ## Combining parts -/

/-- The register of a literal holds the same in both machines. -/
theorem tracks_literal (l : Literal) : m.Tracks n (literal l s) d V IsSame := by
  rw [literal]
  cases l with
  | null => exact tracks_result rfl rfl nofun
  | bool b => cases b <;> exact tracks_result rfl rfl nofun
  | int _ | uint _ | double _ | string _ | bytes _ =>
    refine (tracks_fresh n d V).bind fun dst e W _ _ hdst => ?_
    refine (tracks_pool rfl).bind fun i f U hf hU _ => ?_
    have hput : m.Tracks n (emit .loadConst dst i 0 0 s) f U fun _ _ W => W dst = .same :=
      tracks_put rfl rfl nofun (hf.isRegister hdst.1)
        (hU.ne_list (View.ne_list_of_unknown hdst.2))
    exact hput.bind fun _ _ _ _ _ hsame => .pure hsame

/-- So does the register of a variable, since the environments are equal. -/
theorem tracks_ident (name : String) :
    m.Tracks n (do
      let i ← string name
      let dst ← fresh
      emit .loadVar dst i 0 0 s
      pure dst : Build Nat) d V IsSame :=
  (tracks_pool rfl).bind fun _ _ _ _ _ _ =>
    tracks_result rfl rfl nofun

/-- Registers moved one after another. -/
theorem tracks_moveAll {base : Nat} (hbase : base + regs.length ≤ d.registers)
    (hregs : ∀ r ∈ regs, V r = .same) (hV : ∀ r, base ≤ r → V r ≠ .list) :
    m.Tracks n (moveAll base s regs) d V fun _ _ W =>
      ∀ r ∈ List.range' base regs.length, W r = .same := by
  induction regs generalizing base d V with
  | nil => exact .pure (List.forall_mem_nil _)
  | cons r rest ih =>
    rw [List.length_cons] at hbase
    rw [moveAll]
    have hmove : m.Tracks n (emit .move base r 0 0 s) d V fun _ _ W => W base = .same :=
      tracks_move (hregs r List.mem_cons_self) (by omega) (hV base (Nat.le_refl _))
    refine hmove.bind fun _ e W he hW hsame => ?_
    have hrest : m.Tracks n (moveAll (base + 1) s rest) e W fun _ _ U =>
        ∀ r ∈ List.range' (base + 1) rest.length, U r = .same := by
      refine ih ?_ (fun q hq => hW.same q (hregs q (List.mem_cons_of_mem r hq))) fun q hq => ?_
      · have := he.registers
        omega
      · exact hW.ne_list (hV q (Nat.le_of_succ_le hq))
    refine hrest.imp fun _ _ U hU hrange q hq => ?_
    rw [List.length_cons, List.range'_succ] at hq
    rcases List.mem_cons.1 hq with rfl | hq
    · exact hU.same q hsame
    · exact hrange q hq

/-- Registers moved into a block hold the same there. -/
theorem tracks_consecutive (hregs : ∀ r ∈ regs, V r = .same) :
    m.Tracks n (consecutive regs s) d V fun base _ W =>
      ∀ r ∈ List.range' base regs.length, W r = .same := by
  have hblock : m.Tracks n (block regs.length) d V fun base e W =>
      base + regs.length ≤ e.registers ∧ ∀ r, base ≤ r → W r = .unknown :=
    .silent rfl fun _ hV => ⟨Nat.le_refl _, hV⟩
  refine hblock.bind fun base e W _ hW hbase => ?_
  have hmoves := tracks_moveAll (m := m) (n := n) (s := s) hbase.1
    (fun r hr => hW.same r (hregs r hr)) fun r hr => View.ne_list_of_unknown (hbase.2 r hr)
  exact hmoves.bind fun _ _ _ _ _ hrange => .pure hrange

/-- A list and a map are made of registers that hold the same. -/
theorem tracks_aggregate {opcode : Opcode} {count : Nat}
    (hop : opcode = .makeList ∧ count = regs.length ∨
      opcode = .makeMap ∧ 2 * count = regs.length) (hregs : ∀ r ∈ regs, V r = .same) :
    m.Tracks n (aggregate opcode regs count s) d V IsSame := by
  refine (tracks_consecutive hregs).bind fun base e W _ _ hrange => ?_
  rcases hop with ⟨rfl, rfl⟩ | ⟨rfl, hcount⟩
  · exact tracks_result rfl rfl fun _ _ => hrange
  · rw [← hcount] at hrange
    exact tracks_result rfl rfl fun _ _ => hrange

/-- A message is made of as many registers as it has names. -/
theorem tracks_message {names : List String} (typeName : String)
    (hlen : names.length = regs.length) (hregs : ∀ r ∈ regs, V r = .same) :
    m.Tracks n (message typeName names regs s) d V IsSame := by
  refine (tracks_consecutive hregs).bind fun base e W _ _ hrange => ?_
  have hfields : m.Tracks n (fields names) e W fun i _ _ =>
      m.program.messageFields[i]? = some names := by
    refine .silent rfl fun hl _ => ?_
    rw [← Array.getElem?_toList]
    exact getElem?_mono hl.covers.messageFields (by simp [fields])
  refine hfields.bind fun i f U _ hU hi => ?_
  refine (tracks_pool rfl).bind fun _ _ W' _ hW' _ => ?_
  refine tracks_result rfl rfl fun dst k r hr => ?_
  rw [Line.reads, hi, Option.getD_some, hlen] at hr
  exact hW'.same r (hU.same r (hrange r hr))

/-- A function is called with what registers hold that hold the same. -/
theorem tracks_call (function : String) (hregs : ∀ r ∈ regs, V r = .same) :
    m.Tracks n (call function regs s) d V IsSame := by
  refine (tracks_consecutive hregs).bind fun base e W _ _ hrange => ?_
  refine (tracks_pool rfl).bind fun _ _ U _ hU _ => ?_
  exact tracks_result rfl rfl fun _ _ r hr => hU.same r (hrange r hr)

theorem tracks_select [Lawful x] {opcode : Opcode}
    (hopcode : opcode = .memberAccess ∨ opcode = .hasField) (field : String)
    (hx : m.Tracks n x d V IsSame) : m.Tracks n (select opcode x field s) d V IsSame := by
  refine hx.bind fun src e W _ _ hsrc => ?_
  refine (tracks_pool rfl).bind fun _ _ U _ hU _ => ?_
  have hsrc : U src = .same := hU.same src hsrc
  rcases hopcode with rfl | rfl
  all_goals
    exact tracks_result rfl rfl fun _ _ => List.forall_mem_singleton.2 hsrc

theorem tracks_unary [Lawful x] (op : UnaryOperator) (hx : m.Tracks n x d V IsSame) :
    m.Tracks n (do
      let src ← x
      let dst ← fresh
      emit (unaryOpcode op) dst src 0 0 s
      pure dst : Build Nat) d V IsSame := by
  refine hx.bind fun src e W _ _ hsrc => ?_
  cases op with
  | negate | not =>
    exact tracks_result rfl rfl fun _ _ => List.forall_mem_singleton.2 hsrc

theorem tracks_index [Lawful x] [Lawful y] (hx : m.Tracks n x d V IsSame)
    (hy : ∀ e W, m.Tracks n y e W IsSame) :
    m.Tracks n (do
      let src ← x
      let key ← y
      let dst ← fresh
      emit .index dst src key 0 s
      pure dst : Build Nat) d V IsSame := by
  refine hx.bind fun src e W _ _ hsrc => (hy e W).bind fun key f U _ hU hkey => ?_
  exact tracks_result rfl rfl fun _ _ =>
    List.forall_mem_cons.2 ⟨hU.same src hsrc, List.forall_mem_singleton.2 hkey⟩

theorem tracks_strict [Lawful x] [Lawful y] (op : BinaryOperator) (hx : m.Tracks n x d V IsSame)
    (hy : ∀ e W, m.Tracks n y e W IsSame) : m.Tracks n (strict op x y s) d V IsSame := by
  refine hx.bind fun lhs e W _ _ hlhs => (hy e W).bind fun rhs f U _ hU hrhs => ?_
  exact tracks_result rfl rfl fun _ _ =>
    List.forall_mem_cons.2 ⟨hU.same lhs hlhs, List.forall_mem_singleton.2 hrhs⟩

/-! ## Jumps -/

/-- The accumulator of `&&` and `||` holds the same, whether the right operand is skipped or not. -/
theorem tracks_shortCircuit [Lawful x] [Lawful y] (op : BinaryOperator)
    (hx : m.Tracks n x d V IsSame) (hy : ∀ e W, m.Tracks n y e W IsSame) :
    m.Tracks n (shortCircuit op x y s) d V IsSame := by
  refine hx.bind fun lhs e W _ _ hlhs => (tracks_fresh n e W).bind fun acc f U _ hU hacc => ?_
  have hmove : m.Tracks n (emit .move acc lhs 0 0 s) f U fun _ _ W => W acc = .same :=
    tracks_move (hU.same lhs hlhs) hacc.1 (View.ne_list_of_unknown hacc.2)
  refine hmove.bind fun _ g W hg hW hsame => ?_
  have hright : m.Tracks n (do
      let rhs ← y
      emit .binaryOp acc acc op.index rhs s : Build Unit) (reserved g s) W fun _ _ _ => True := by
    refine (hy _ _).bind fun rhs e U he hU hrhs => ?_
    have hsame := hU.same acc hsame
    have hreads : ∀ r ∈ [acc, rhs], U r = .same :=
      List.forall_mem_cons.2 ⟨hsame, List.forall_mem_singleton.2 hrhs⟩
    have hput : m.Tracks n (emit .binaryOp acc acc op.index rhs s) e U fun _ _ W => W acc = .same :=
      tracks_put rfl rfl (fun _ => hreads) (he.isRegister (hg.isRegister hacc.1))
        (View.ne_list_of_same hsame)
    exact hput.imp fun _ _ _ _ _ => trivial
  refine (tracks_jumpOver (.inr ⟨?_, hsame⟩) hright).bind fun _ _ U _ hU _ => .pure ?_
  · split <;> rfl
  · exact hU.same acc hsame

/-- A branch moves its value into the register for the result. -/
theorem tracks_branch [Lawful x] {result : Nat} (hresult : result < d.registers)
    (hV : V result ≠ .list) (hx : m.Tracks n x d V IsSame) :
    m.Tracks n (branch result x s) d V fun _ _ W => W result = .same :=
  hx.bind fun _ _ _ he hW hv => tracks_move hv (he.isRegister hresult) (hW.ne_list hV)

/-- Two pieces, one of which is jumped over. Both leave a value in one register. -/
theorem tracks_branches {x y : Build Unit} [Lawful x] [Lawful y] {test result : Nat}
    (htest : V test = .same) (hresult : result < d.registers) (hV : V result ≠ .list)
    (hx : ∀ e, d.Grows e → m.Tracks n x e V fun _ _ W => W result = .same)
    (hy : ∀ e, d.Grows e → m.Tracks n y e V fun _ _ W => W result = .same) :
    m.Tracks n (do
      skipping (fun target i => ⟨.jumpIfFalse, test, target + stride, 0, 0, i⟩) s x
      skipping (fun target i => ⟨.jump, 0, target, 0, 0, i⟩) s y
      pure result : Build Nat) d V IsSame := by
  intro hl hbelow
  -- The second piece begins on the draft `e`, after the jump over it.
  let e := reserved (x (reserved d s)).draft s
  have hfirst := hl.left
  have hsecond := hl.right.left
  have hde : d.Grows e := ((grows_reserved d s).trans (grows x _)).trans (grows_reserved _ s)
  have hef := grows y e
  obtain ⟨U, hU, hUresult⟩ := hx _ (grows_reserved d s) (loads_of_skipping hfirst) hbelow
  obtain ⟨W, hW, hWresult⟩ := hy e hde (loads_of_skipping hsecond) (hbelow.mono hde.registers)
  rw [skipping_apply] at hfirst hsecond
  have hbelow' : V.Below (y e).draft.registers := hbelow.mono (hde.trans hef).registers
  refine ⟨V.set result .same, ⟨View.le_set hV, hbelow'.set ?_, fun h => ?_⟩, View.set_self⟩
  · exact (hde.trans hef).isRegister hresult
  · -- Backwards from the end: where the second piece begins, and where the first one ends with a
    -- jump over it.
    have hafter : m.Agrees n (stride * e.records) V :=
      hW.agrees (h.of_le (hW.le.set_le hV hWresult))
    have hbetween : m.Agrees n (stride * (x (reserved d s)).draft.records) U :=
      agrees_jump (.inl rfl) hsecond.holds (hafter.of_le hU.le)
        (h.of_le (hU.le.set_le hV hUresult))
    exact agrees_jump (.inr ⟨rfl, htest⟩) hfirst.holds (hU.agrees hbetween) hafter

/-- Whichever branch is taken, the result holds the same. -/
theorem tracks_choose {condition : Body} {whenTrue whenFalse : Build Nat} [Lawful condition.build]
    [Lawful whenTrue] [Lawful whenFalse] (hcondition : m.Tracks n condition.build d V IsSame)
    (htrue : ∀ e W, m.Tracks n whenTrue e W IsSame)
    (hfalse : ∀ e W, m.Tracks n whenFalse e W IsSame) :
    m.Tracks n (choose condition whenTrue whenFalse s) d V IsSame := by
  rw [choose_eq]
  refine hcondition.bind fun test e W _ _ htest => ?_
  refine (tracks_check htest).bind fun _ f U _ hU _ => ?_
  refine (tracks_fresh n f U).bind fun result g W _ hW hresult => ?_
  have hne : W result ≠ .list := View.ne_list_of_unknown hresult.2
  refine tracks_branches (hW.same test (hU.same test htest)) hresult.1 hne (fun k hk => ?_)
    fun k hk => ?_
  · exact tracks_branch (hk.isRegister hresult.1) hne (htrue k W)
  · exact tracks_branch (hk.isRegister hresult.1) hne (hfalse k W)

/-- A body that is a boolean, a jump on it, and what follows. -/
theorem tracks_guarded {p : Body} [Lawful p.build] {opcode : Opcode} {head : Nat}
    {role : ConditionRole} {z : Build Unit} [Lawful z] (hjump : opcode.isConditionalJump)
    (hp : m.Tracks n p.build d V IsSame) (hhead : m.Agrees n head V)
    (hz : ∀ e W, d.Grows e → V.Le W → m.Tracks n z e W fun _ _ _ => True) :
    m.Tracks n (do
      let v ← guarded p role
      emit opcode v head 0 0 s
      z : Build Unit) d V fun _ _ _ => True := by
  have hguarded : m.Tracks n (guarded p role) d V IsSame := by
    refine hp.bind fun v e W _ _ hv => ?_
    exact (tracks_check hv).bind fun _ _ U _ hU _ => .pure (hU.same v hv)
  refine hguarded.bind fun v e W he hW hv => ?_
  exact (tracks_jump (.inr ⟨hjump, hv⟩) (hhead.of_le hW)).bind fun _ f U hf hU _ =>
    hz f U (he.trans hf) (hW.trans hU)

/-! ## Comprehensions -/

/-- The result is decided by a constant, and the loop is left. -/
theorem tracks_decided (stop : Bool) {acc : Nat} (hacc : acc < d.registers) (hV : V acc ≠ .list) :
    m.Tracks n (decided stop acc s) d V fun _ _ _ => True := by
  refine (tracks_load ?_ hacc hV).bind fun _ _ _ _ _ _ =>
    tracks_jumpOver (P := fun _ _ _ => True) (.inl rfl) (.pure trivial)
  cases stop
  · exact .inr rfl
  · exact .inl rfl

/-- An item is appended to the list under construction, and the loop goes on. -/
theorem tracks_append {acc r head : Nat} (hacc : V acc = .list) (hr : V r = .same)
    (hhead : m.Agrees n head V) : m.Tracks n (append acc r head s) d V fun _ _ _ => True :=
  (tracks_listAppend hacc hr).bind fun _ _ _ _ hW _ => tracks_jump (.inl rfl) (hhead.of_le hW)

/-- The first item that is found sets the result, and the second one resets it. -/
theorem tracks_count {acc head : Nat} (hacc : acc < d.registers) (hV : V acc = .same)
    (hhead : m.Agrees n head V) : m.Tracks n (count acc head s) d V fun _ _ _ => True := by
  refine (tracks_check hV).bind fun _ e W he hW _ => ?_
  have hsame : W acc = .same := hW.same acc hV
  have hacc : acc < e.registers := he.isRegister hacc
  have hback : m.Tracks n (do
      emit .loadTrue acc 0 0 0 s
      emit .jump 0 head 0 0 s : Build Unit) (reserved e s) W fun _ _ _ => True :=
    (tracks_load (d := reserved e s) (.inl rfl) hacc (View.ne_list_of_same hsame)).bind
      fun _ _ _ _ hU _ => tracks_jump (.inl rfl) (hhead.of_le (hW.trans hU))
  exact (tracks_jumpOver (.inr ⟨rfl, hsame⟩) hback).bind fun _ _ _ hf hU _ =>
    tracks_load (.inr rfl) (hf.isRegister hacc) (View.ne_list_of_same (hU.same acc hsame))

section

variable {form : Comprehension Body} (hlawful : ∀ b ∈ form.bodies, Lawful b.build)
  (hform : ∀ b ∈ form.bodies, ∀ n e W, m.Tracks n b.build e W IsSame)
include hlawful hform

/-- The code for one item, which may go back to where the machines agree. -/
theorem tracks_loopBody {acc item head : Nat} (hreg : acc < d.registers)
    (hacc : V acc = form.likeness) (hitem : V item = .same) (hhead : m.Agrees n head V) :
    m.Tracks n (loopBody form acc item head s) d V fun _ _ _ => True := by
  cases form with
  | all p =>
    have := hlawful p (List.mem_singleton_self p)
    have hp := hform p (List.mem_singleton_self p) n d V
    refine tracks_guarded (z := decided false acc s) rfl hp hhead fun e W he hW => ?_
    exact tracks_decided false (he.isRegister hreg) (hW.ne_list (View.ne_list_of_same hacc))
  | «exists» p =>
    have := hlawful p (List.mem_singleton_self p)
    have hp := hform p (List.mem_singleton_self p) n d V
    refine tracks_guarded (z := decided true acc s) rfl hp hhead fun e W he hW => ?_
    exact tracks_decided true (he.isRegister hreg) (hW.ne_list (View.ne_list_of_same hacc))
  | existsOne p =>
    have := hlawful p (List.mem_singleton_self p)
    have hp := hform p (List.mem_singleton_self p) n d V
    refine tracks_guarded (z := count acc head s) rfl hp hhead fun e W he hW => ?_
    exact tracks_count (he.isRegister hreg) (hW.same acc hacc) (hhead.of_le hW)
  | filter p =>
    have := hlawful p (List.mem_singleton_self p)
    have hp := hform p (List.mem_singleton_self p) n d V
    refine tracks_guarded (z := append acc item head s) rfl hp hhead fun e W _ hW => ?_
    exact tracks_append ((hW.list acc).2 hacc) (hW.same item hitem) (hhead.of_le hW)
  | transform b =>
    have := hlawful b (List.mem_singleton_self b)
    have hb := hform b (List.mem_singleton_self b) n d V
    exact hb.bind fun v e W _ hW hv => tracks_append ((hW.list acc).2 hacc) hv (hhead.of_le hW)
  | filterTransform p b =>
    have hmem := List.mem_cons_of_mem p (List.mem_singleton_self b)
    have := hlawful p List.mem_cons_self
    have := hlawful b hmem
    have hp := hform p List.mem_cons_self n d V
    refine tracks_guarded rfl hp hhead fun e W _ hW => (hform b hmem n e W).bind
      fun v f U _ hU hv => ?_
    have hVU := hW.trans hU
    exact tracks_append ((hVU.list acc).2 hacc) hv (hhead.of_le hVU)

/-- A turn of a loop binds its variable to what holds the same in both machines. -/
theorem tracks_turn (x : String) {acc item head : Nat} (hreg : acc < d.registers)
    (hacc : V acc = form.likeness) (hitem : V item = .same) (hhead : m.Agrees n head V) :
    m.Tracks n (turn x form acc item head s) d V fun _ _ _ => True := by
  have := lawful_loopBody form hlawful
  refine (tracks_pool rfl).bind fun name e W he hW _ => ?_
  have hbind : m.Tracks n (emit .bindVar 0 name item 0 s) e W fun _ _ _ => True :=
    tracks_effect rfl rfl fun _ => List.forall_mem_singleton.2 (hW.same item hitem)
  refine hbind.bind fun _ f U hf hU _ => ?_
  have hVU := hW.trans hU
  exact tracks_loopBody hlawful hform ((he.trans hf).isRegister hreg)
    (hVU.eq hacc form.likeness_ne_unknown) (hVU.same item hitem) (hhead.of_le hVU)

/-- The loop of a comprehension. By induction on the number of steps, the machines
    agree where it begins if they agree where it ends: they take a step at least
    before they are there again. -/
theorem tracks_loop (x : String) {iterator acc : Nat} (hreg : acc < d.registers)
    (hacc : V acc = form.likeness) :
    m.Tracks n (loop x form iterator acc s) d V fun _ _ _ => True := by
  have := lawful_turn x form hlawful
  intro hl hbelow
  -- The item is in the next register, of which nothing is known before.
  let e := (fresh d).draft
  have hloop := hl.right.right
  have hunknown : V d.registers = .unknown := hbelow _ (Nat.le_refl _)
  have hne : V d.registers ≠ .list := View.ne_list_of_unknown hunknown
  have hde : d.Grows (reserved e s) := (grows fresh d).trans (grows_reserved e s)
  have hbelow' := hbelow.mono hde.registers
  let z : Build Unit := turn x form acc d.registers (stride * d.records) s
  refine ⟨V, ⟨.refl V, hbelow.mono (hde.trans (grows z _)).registers, fun hend => ?_⟩, trivial⟩
  have hhead (k : Nat) (hk : k ≤ n) : m.Agrees k (stride * d.records) V := by
    induction k with
    | zero => exact agrees_zero
    | succ k ih =>
      have hk := Nat.le_of_succ_le hk
      have hV : V.Le (V.set d.registers .same) := View.le_set hne
      obtain ⟨W, hW, -⟩ := tracks_turn (n := k) (s := s) hlawful hform x
        (hde.isRegister hreg) (hV.eq hacc form.likeness_ne_unknown) View.set_self
        ((ih hk).of_le hV) (loads_of_skipping hloop) (hbelow'.set (Nat.lt_succ_self _))
      rw [skipping_apply] at hloop
      exact agrees_iterNext hloop.holds (hW.agrees ((hend.mono hk).of_le (hV.trans hW.le)))
        (hend.mono hk)
  exact hhead n (Nat.le_refl n)

/-- The loop in its scope, and the register for what comes of it. -/
theorem tracks_scope (x : String) {iterator acc : Nat} (hreg : acc < d.registers)
    (hacc : V acc = form.likeness) :
    m.Tracks n (do
      emit .scopePush 0 0 0 0 s
      loop x form iterator acc s
      emit .scopePop 0 0 0 0 s
      fresh : Build Nat) d V fun r e W => r < e.registers ∧ W r = .unknown := by
  have := lawful_loop x form hlawful
  have hpush : m.Tracks n (emit .scopePush 0 0 0 0 s) d V fun _ _ _ => True :=
    tracks_effect rfl rfl nofun
  refine hpush.bind fun _ e W he hW _ => ?_
  have hloop : m.Tracks n (loop x form iterator acc s) e W fun _ _ _ => True :=
    tracks_loop hlawful hform x (he.isRegister hreg) (hW.eq hacc form.likeness_ne_unknown)
  refine hloop.bind fun _ f U _ _ _ => ?_
  have hpop : m.Tracks n (emit .scopePop 0 0 0 0 s) f U fun _ _ _ => True :=
    tracks_effect rfl rfl nofun
  exact hpop.bind fun _ g W _ _ _ => tracks_fresh n g W

omit hlawful hform in
/-- The record that begins a comprehension. It writes an empty list where a list is
    to be built. -/
theorem agrees_start {acc : Nat} (hl : m.program.Loads d (start form acc s d))
    (h : m.Agrees n (stride * (start form acc s d).draft.records) (V.set acc form.likeness)) :
    m.Agrees n (stride * d.records) V := by
  suffices m.Agrees (n + 1) (stride * d.records) V from this.of_succ
  cases form with
  | all | «exists» | existsOne => exact agrees_ordinary hl.holds rfl nofun h
  | filter | transform | filterTransform =>
    exact agrees_ordinary hl.holds rfl nofun fun k hk t u ht htu => h k hk t u ht htu.set_list

/-- A comprehension over the items of an iterator. What is known of its result in
    the loop is forgotten when it is moved. -/
theorem tracks_rounds (x : String) (iterator : Nat) :
    m.Tracks n (rounds x form iterator s) d V IsSame := by
  have := lawful_loop x form hlawful
  have := valued_rounds x form hlawful
  have heq : rounds x form iterator s = (do
      let acc ← fresh
      start form acc s
      let result ← (do
        emit .scopePush 0 0 0 0 s
        loop x form iterator acc s
        emit .scopePop 0 0 0 0 s
        fresh)
      emit .move result acc 0 0 s
      pure result) := by
    simp only [rounds, bind_assoc]
  intro hl hbelow
  have hloads := heq ▸ hl
  -- The result is built up in the next register, `acc`, and the loop begins on `e`.
  let acc := d.registers
  let e := (start form acc s (fresh d).draft).draft
  have hde : d.Grows e := (grows fresh d).trans (grows _ _)
  have hreg : acc < e.registers := (grows (start form acc s) _).isRegister (Nat.lt_succ_self _)
  obtain ⟨W, hW, -⟩ := tracks_scope (n := n) (V := V.set acc form.likeness) hlawful hform x hreg
    View.set_self hloads.right.right.left ((hbelow.mono hde.registers).set hreg)
  have hacc : W acc ≠ .unknown := by
    rw [hW.le.eq View.set_self form.likeness_ne_unknown]
    exact form.likeness_ne_unknown
  have hresult : V (rounds x form iterator s d).value ≠ .list :=
    View.ne_list_of_unknown (hbelow _ (le_value d))
  refine ⟨V.set (rounds x form iterator s d).value .same, ⟨View.le_set hresult,
    (hbelow.mono (grows _ d).registers).set (value_lt d), fun h => ?_⟩, View.set_self⟩
  refine agrees_start (d := (fresh d).draft) hloads.right.left (hW.agrees ?_)
  have hforget : V.Le (W.set acc .unknown) := hW.le.forget (hbelow _ (Nat.le_refl _))
  have hmove := hloads.right.right.right.left.holds
  refine (agrees_move (n := n) hmove hacc (fun t u r hr htu => ?_) (h.of_le hforget.set)).of_succ
  have hr : r.toNat = acc := hr
  exact (htu.forget acc).release (View.ne_list_of_unknown (by rw [hr, View.set_self]))

/-- The code of a comprehension tracks the registers if that of its target and its clauses does. -/
theorem tracks_comprehension {target : Build Nat} [Lawful target]
    (htarget : m.Tracks n target d V IsSame) (x : String) :
    m.Tracks n (comprehension target x form s) d V IsSame := by
  have (iterator : Nat) := valued_rounds x form hlawful iterator s
  rw [comprehension_eq]
  refine htarget.bind fun source e W _ _ hsource => ?_
  refine (tracks_fresh n e W).bind fun iterator f U _ hU _ => ?_
  have hinit : m.Tracks n (emit .iterInit iterator source 0 0 s) f U fun _ _ _ => True :=
    tracks_effect rfl rfl fun _ =>
      List.forall_mem_singleton.2 (hU.same source hsource)
  exact hinit.bind fun _ _ _ _ _ _ => tracks_rounds hlawful hform x iterator

end

end Lowering

end ExprMachine
