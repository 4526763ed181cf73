import ExprMachine.Proofs.Jumps
import ExprMachine.Proofs.MirroredRecords
import ExprMachine.Proofs.WellFormed

/-!
# Code that two machines execute alike

The machine and the one that appends in place *agree* at an offset, for a number of
steps and under a view, if executions of either that begin there leave the same,
whatever states mirror each other under the view (`Machine.Agrees`).

Agreement is carried backwards through code. A piece *tracks* what is known of the
registers if the machines agree where it begins whenever they agree where it ends,
under a view that tells at least as much (`Machine.Tracks`); beside this, something
may be known of the view at the end and of the value of the piece. Code that jumps
has to know that the machines agree where the jump leads, and if that is back to an
earlier place, it knows it for fewer steps.
-/

namespace ExprMachine

open Build Exec

namespace Machine

variable (m : Machine)

/-! ## Agreement -/

/-- Executions of the two machines from two states leave the same, as far as they
    end within a number of steps. -/
def Matches (n : Nat) (s t : State) : Prop :=
  (m.runInPlace n t).map Execution.ofResult = (m.run n s).map Execution.ofResult

/-- The two machines agree at an offset: within every number of steps up to `n`,
    executions from states that mirror each other leave the same. -/
def Agrees (n pc : Nat) (V : View) : Prop :=
  ∀ k ≤ n, ∀ s t : State, s.pc = pc → s.Mirrors V t → m.Matches k s t

variable {m} {n k pc place : Nat} {V W : View} {s t : State} {i : Instruction} {l : Line}
  {rest : List Line}

theorem Agrees.mono (h : m.Agrees n pc V) (hk : k ≤ n) : m.Agrees k pc V :=
  fun j hj => h j (Nat.le_trans hj hk)

theorem Agrees.of_succ (h : m.Agrees (n + 1) pc V) : m.Agrees n pc V := h.mono (Nat.le_succ n)

/-- The machines agree all the more under a view that tells more. -/
theorem Agrees.of_le (h : m.Agrees n pc V) (hV : V.Le W) : m.Agrees n pc W :=
  fun j hj s t hs hst => h j hj s t hs (hst.mono hV)

theorem agrees_zero : m.Agrees 0 pc V := by
  intro k hk s t _ _
  obtain rfl := Nat.le_zero.1 hk
  rfl

theorem stepInPlace_eq (h : m.program.fetch s.pc = .ok i) :
    m.stepInPlace s = m.performInPlace i (m.program.span i.span) s.advance := by
  have hlt : ¬m.program.code.size ≤ s.pc := Nat.not_le.2 (Program.lt_size_of_fetch h)
  rw [stepInPlace, get_bind]
  simp only [if_neg hlt, h, modify_bind]
  rfl

/-- Machines that perform a record alike agree before it if they agree wherever
    they stand after it. -/
theorem agrees_of_alike (hfetch : m.program.fetch pc = .ok i)
    (h : ∀ s t, s.pc = pc + stride → s.Mirrors V t →
      (m.perform i (m.program.span i.span)).Alike (m.performInPlace i (m.program.span i.span)) s t
        fun res u w => (res = none → ∀ k ≤ n, m.Matches k u w) ∧ (res ≠ none → u.EndsLike w)) :
    m.Agrees (n + 1) pc V := by
  intro k hk s t hs hst
  cases k with
  -- No step is taken, and so neither machine has ended.
  | zero => rfl
  | succ k =>
    have hs' : m.program.fetch s.pc = .ok i := by rw [hs, hfetch]
    have ht' : m.program.fetch t.pc = .ok i := by rw [hst.pc, hs']
    have hstep : m.step s = m.perform i (m.program.span i.span) s.advance := At.step_eq ⟨hs', rfl⟩
    have hstep' := stepInPlace_eq ht'
    rw [Matches, run, runInPlace, hstep, hstep']
    rcases (h s.advance t.advance (congrArg (· + stride) hs) hst.advance).cases with
      ⟨res, u, w, hx, hy, hnone, hsome⟩ | ⟨e, u, w, hx, hy, hend⟩
    · rw [hx, hy]
      cases res with
      | none => exact hnone rfl k (Nat.le_of_succ_le_succ hk)
      | some v => exact congrArg some (Execution.ofResult_ok (hsome (Option.some_ne_none v)) v)
    · rw [hx, hy]
      exact congrArg some (Execution.ofResult_error hend e)

/-- The machines agree before a record that reads only what is the same if they
    agree after it and at its targets. -/
theorem agrees_record (hl : m.program.Holds place (l :: rest))
    (hlists : l.opcode.handlesLists = false) (hreads : ∀ r ∈ l.reads m.program, V r = .same)
    (hnext : m.Agrees n (stride * (place + 1)) (V.after l.opcode l.dst))
    (htargets : ∀ target ∈ l.targets, m.Agrees n target V) :
    m.Agrees (n + 1) (stride * place) V := by
  obtain ⟨hfits, hfetch⟩ := hl.head
  have hline := Line.line_toInstruction hfits
  have hkept : ∀ r ∈ l.toInstruction.line.reads m.program, V r = .same := by rwa [hline]
  refine agrees_of_alike hfetch fun s t hs hst => ?_
  rw [performInPlace_eq m hlists]
  refine (alike_perform hst hlists hkept).mono fun res u w hu => ?_
  rw [hline] at hu
  refine ⟨fun _ k hk => ?_, fun hres => absurd hu.1 hres⟩
  rcases hu.2 with ⟨hpc, hmirrors⟩ | ⟨hpc, hmirrors⟩
  · exact hnext k hk u w (by rw [hpc, hs, Nat.mul_succ]) hmirrors
  · exact htargets u.pc hpc k hk u w rfl hmirrors

/-- The machines agree before an ordinary record if they agree behind it. -/
theorem agrees_ordinary (hl : m.program.Holds place (l :: rest)) (hop : l.opcode.isOrdinary)
    (hreads : ∀ r ∈ l.reads m.program, V r = .same)
    (hnext : m.Agrees n (stride * (place + 1)) (V.after l.opcode l.dst)) :
    m.Agrees (n + 1) (stride * place) V := by
  refine agrees_record hl (Opcode.handlesLists_of_isOrdinary hop) hreads hnext ?_
  rw [Line.targets_of_isOrdinary hop]
  exact List.forall_mem_nil _

/-- A record that goes on to the next one. -/
theorem agrees_of_next (hfetch : m.program.fetch pc = .ok i)
    (h : ∀ s t, s.Mirrors V t →
      (m.perform i (m.program.span i.span)).Alike (m.performInPlace i (m.program.span i.span)) s t
        fun res u w => res = none ∧ u.pc = s.pc ∧ u.Mirrors W w)
    (hnext : m.Agrees n (pc + stride) W) : m.Agrees (n + 1) pc V := by
  refine agrees_of_alike hfetch fun s t hs hst => (h s t hst).mono fun res u w hu => ?_
  exact ⟨fun _ k hk => hnext k hk u w (hu.2.1.trans hs) hu.2.2, fun hres => absurd hu.1 hres⟩

section

variable {dst a b c j : Nat}

theorem agrees_listAppend (hl : m.program.Holds place (⟨.listAppend, dst, a, b, c, j⟩ :: rest))
    (hdst : V dst = .list) (ha : V a = .same) (hnext : m.Agrees n (stride * (place + 1)) V) :
    m.Agrees (n + 1) (stride * place) V := by
  obtain ⟨hfits, hfetch⟩ := hl.head
  obtain ⟨-, hlt, hlt₁, -⟩ := Line.fits_iff.1 hfits
  refine agrees_of_next hfetch (fun s t hst => alike_listAppend hst ?_ ?_) hnext
  · rwa [toNat_ofNat_of_lt hlt]
  · rwa [toNat_ofNat_of_lt hlt₁]

/-- A record that moves what is held. From then on, what is known is what is known
    once it has been taken. -/
theorem agrees_move (hl : m.program.Holds place (⟨.move, dst, a, b, c, j⟩ :: rest))
    (ha : V a ≠ .unknown)
    (hW : ∀ (s t : State) (r : UInt32), r.toNat = a → s.Mirrors V t → (s.release r).Mirrors W t)
    (hnext : m.Agrees n (stride * (place + 1)) (W.set dst .same)) :
    m.Agrees (n + 1) (stride * place) V := by
  obtain ⟨hfits, hfetch⟩ := hl.head
  obtain ⟨-, hlt, hlt₁, -⟩ := Line.fits_iff.1 hfits
  have hdst : (UInt32.ofNat dst).toNat = dst := toNat_ofNat_of_lt hlt
  have hsrc : (UInt32.ofNat a).toNat = a := toNat_ofNat_of_lt hlt₁
  rw [← hdst] at hnext
  refine agrees_of_next hfetch (fun s t hst => ?_) hnext
  exact alike_move hst (by rwa [hsrc]) (hW s t _ hsrc hst)

/-- The machines agree before the record that gives the next item if they agree
    behind it, the item being known to be the same, and where there is none. -/
theorem agrees_iterNext (hl : m.program.Holds place (⟨.iterNext, dst, a, b, c, j⟩ :: rest))
    (hnext : m.Agrees n (stride * (place + 1)) (V.set dst .same)) (hexit : m.Agrees n b V) :
    m.Agrees (n + 1) (stride * place) V :=
  agrees_record hl rfl nofun hnext (List.forall_mem_singleton.2 hexit)

theorem agrees_return (hl : m.program.Holds place (⟨.return, dst, a, b, c, j⟩ :: rest))
    (ha : V a ≠ .unknown) : m.Agrees n (stride * place) V := by
  obtain ⟨hfits, hfetch⟩ := hl.head
  have ha : V (UInt32.ofNat a).toNat ≠ .unknown := by
    rwa [toNat_ofNat_of_lt (Line.fits_iff.1 hfits).2.2.1]
  refine (agrees_of_alike (n := n) hfetch fun s t _ hst => ?_).of_succ
  exact (alike_return hst ha).mono fun res u w hu => ⟨fun hres => absurd hres hu.1, fun _ => hu.2⟩

end

/-! ## Pieces -/

variable {α β : Type} {x : Build α} {f : α → Build β} {d : Draft}

/-- If the machines agree at the end of a piece under the view `W`, they do so at its
    beginning under `V`, which tells no more. -/
structure Leads (m : Machine) (n : Nat) (x : Build α) (d : Draft) (V W : View) : Prop where
  le : V.Le W
  below : W.Below (x d).draft.registers
  agrees : m.Agrees n (stride * (x d).draft.records) W → m.Agrees n (stride * d.records) V

/-- The piece tracks what is known of the registers, from a view on to a later one. -/
def Tracks (m : Machine) (n : Nat) (x : Build α) (d : Draft) (V : View)
    (post : α → Draft → View → Prop) : Prop :=
  m.program.Loads d (x d) → V.Below d.registers →
    ∃ W, m.Leads n x d V W ∧ post (x d).value (x d).draft W

namespace Tracks

variable {P P' : α → Draft → View → Prop} {Q : β → Draft → View → Prop}

theorem imp (h : m.Tracks n x d V P) (hP : ∀ a e W, V.Le W → P a e W → P' a e W) :
    m.Tracks n x d V P' := by
  intro hl hV
  obtain ⟨W, hW, hp⟩ := h hl hV
  exact ⟨W, hW, hP _ _ _ hW.le hp⟩

/-- A piece without records. -/
theorem silent [Lawful x] (hlines : (x d).lines = [])
    (h : m.program.Loads d (x d) → V.Below d.registers → P (x d).value (x d).draft V) :
    m.Tracks n x d V P := by
  intro hl hV
  refine ⟨V, ⟨.refl V, hV.mono (precedes d).registers, fun hagrees => ?_⟩, h hl hV⟩
  rwa [Lawful.records, hlines] at hagrees

theorem pure {a : α} (h : P a d V) : m.Tracks n (Pure.pure a) d V P := silent rfl fun _ _ => h

/-- One piece after another. -/
theorem bind [Lawful x] [∀ a, Lawful (f a)] (hx : m.Tracks n x d V P)
    (hf : ∀ a e W, d.Grows e → V.Le W → P a e W → m.Tracks n (f a) e W Q) :
    m.Tracks n (x >>= f) d V Q := by
  intro hl hV
  obtain ⟨U, hU, hp⟩ := hx hl.left hV
  obtain ⟨W, hW, hq⟩ := hf _ _ U (grows x d) hU.le hp hl.right hU.below
  exact ⟨W, ⟨hU.le.trans hW.le, hW.below, fun h => hU.agrees (hW.agrees h)⟩, hq⟩

end Tracks

/-- The value of a piece is a register that is known to hold the same. -/
def IsSame (r : Nat) (_ : Draft) (W : View) : Prop := W r = .same

/-- Pools are of no account. -/
theorem tracks_pool [Lawful x] (hlines : (x d).lines = []) : m.Tracks n x d V fun _ _ _ => True :=
  .silent hlines fun _ _ => trivial

theorem tracks_fresh (n : Nat) (d : Draft) (V : View) :
    m.Tracks n fresh d V fun r e W => r < e.registers ∧ W r = .unknown :=
  .silent rfl fun _ hV => ⟨Nat.lt_succ_self _, hV _ (Nat.le_refl _)⟩

section

variable {opcode : Opcode} {dst a b c : Nat} {s : Span}

/-- A record that writes a register. -/
theorem tracks_put (hop : opcode.isOrdinary) (hwrites : opcode.writes)
    (hreads : ∀ i, ∀ r ∈ Line.reads m.program ⟨opcode, dst, a, b, c, i⟩, V r = .same)
    (hdst : dst < d.registers) (hV : V dst ≠ .list) :
    m.Tracks n (emit opcode dst a b c s) d V fun _ _ W => W dst = .same := by
  intro hl hbelow
  refine ⟨V.set dst .same, ⟨View.le_set hV, hbelow.set hdst, fun h => ?_⟩, View.set_self⟩
  refine (agrees_ordinary (n := n) hl.holds hop (hreads _) ?_).of_succ
  rw [View.after_of_writes hwrites]
  exact h

/-- A record that leaves the registers as they are. -/
theorem tracks_effect (hop : opcode.isOrdinary) (hwrites : opcode.writes = false)
    (hreads : ∀ i, ∀ r ∈ Line.reads m.program ⟨opcode, dst, a, b, c, i⟩, V r = .same) :
    m.Tracks n (emit opcode dst a b c s) d V fun _ _ _ => True := by
  intro hl hbelow
  refine ⟨V, ⟨.refl V, hbelow, fun h => ?_⟩, trivial⟩
  refine (agrees_ordinary (n := n) hl.holds hop (hreads _) ?_).of_succ
  rw [View.after_of_not_writes hwrites]
  exact h

/-- A record that writes a register of its own, which is the value of the piece. -/
theorem tracks_result (hop : opcode.isOrdinary) (hwrites : opcode.writes)
    (hreads : ∀ dst i, ∀ r ∈ Line.reads m.program ⟨opcode, dst, a, b, c, i⟩, V r = .same) :
    m.Tracks n (do let r ← fresh; emit opcode r a b c s; pure r : Build Nat) d V IsSame := by
  refine (tracks_fresh n d V).bind fun r e W _ hW hr => ?_
  have hput : m.Tracks n (emit opcode r a b c s) e W fun _ _ W => W r = .same :=
    tracks_put hop hwrites (fun i q hq => hW.same q (hreads r i q hq)) hr.1
      (View.ne_list_of_unknown hr.2)
  exact hput.bind fun _ _ _ _ _ hsame => .pure hsame

/-- A record that moves what is the same. -/
theorem tracks_move (ha : V a = .same) (hdst : dst < d.registers) (hV : V dst ≠ .list) :
    m.Tracks n (emit .move dst a b c s) d V fun _ _ W => W dst = .same := by
  intro hl hbelow
  refine ⟨V.set dst .same, ⟨View.le_set hV, hbelow.set hdst, fun h => ?_⟩, View.set_self⟩
  have hne := View.ne_unknown_of_same ha
  refine (agrees_move (n := n) hl.holds hne (fun s t r hr hst => ?_) h).of_succ
  exact hst.release (View.ne_list_of_same (by rwa [hr]))

/-- A check that a register holds a boolean. -/
theorem tracks_check {r role : Nat} (hr : V r = .same) :
    m.Tracks n (emit .condCheck 0 r role 0 s) d V fun _ _ _ => True :=
  tracks_effect rfl rfl fun _ => List.forall_mem_singleton.2 hr

/-- A record that loads a boolean. -/
theorem tracks_load (hop : opcode = .loadTrue ∨ opcode = .loadFalse) (hdst : dst < d.registers)
    (hV : V dst ≠ .list) : m.Tracks n (emit opcode dst 0 0 0 s) d V fun _ _ _ => True := by
  have hput : m.Tracks n (emit opcode dst 0 0 0 s) d V fun _ _ W => W dst = .same := by
    rcases hop with rfl | rfl <;> exact tracks_put rfl rfl nofun hdst hV
  exact hput.imp fun _ _ _ _ _ => trivial

/-- A record that appends to a list. -/
theorem tracks_listAppend (hdst : V dst = .list) (ha : V a = .same) :
    m.Tracks n (emit .listAppend dst a b c s) d V fun _ _ _ => True := by
  intro hl hbelow
  refine ⟨V, ⟨.refl V, hbelow, fun h => ?_⟩, trivial⟩
  exact (agrees_listAppend (n := n) hl.holds hdst ha h).of_succ

/-! ## Jumps -/

section

variable {r target j : Nat}
  (hjump : opcode = .jump ∨ opcode.isConditionalJump ∧ V r = .same)
include hjump

/-- The machines agree before a jump if they agree where it may lead. -/
theorem agrees_jump (hl : m.program.Holds place (⟨opcode, r, target, 0, 0, j⟩ :: rest))
    (hnext : m.Agrees n (stride * (place + 1)) V) (htarget : m.Agrees n target V) :
    m.Agrees n (stride * place) V := by
  suffices m.Agrees (n + 1) (stride * place) V from this.of_succ
  rcases hjump with rfl | ⟨hop, hr⟩
  · exact agrees_record hl rfl nofun hnext (List.forall_mem_singleton.2 htarget)
  · cases opcode with
    | jumpIfFalse | jumpIfTrue =>
      exact agrees_record hl rfl (List.forall_mem_singleton.2 hr) hnext
        (List.forall_mem_singleton.2 htarget)
    | _ => cases hop

/-- A jump to a place where the machines agree. -/
theorem tracks_jump (htarget : m.Agrees n target V) :
    m.Tracks n (emit opcode r target 0 0 s) d V fun _ _ _ => True := fun hl hbelow =>
  ⟨V, ⟨.refl V, hbelow, fun h => agrees_jump hjump hl.holds h htarget⟩, trivial⟩

/-- A jump over a piece. At its end is known what is known at its beginning. -/
theorem tracks_jumpOver [Lawful x] {P : α → Draft → View → Prop}
    (hx : m.Tracks n x (reserved d s) V P) :
    m.Tracks n (jumpOver opcode r s x) d V fun _ _ _ => True := by
  intro hl hbelow
  obtain ⟨W, hW, -⟩ := hx (loads_of_skipping hl) hbelow
  have hgrows := (grows_reserved d s).trans (grows x (reserved d s))
  rw [jumpOver, skipping_apply] at hl ⊢
  refine ⟨V, ⟨.refl V, hbelow.mono hgrows.registers, fun h => ?_⟩, trivial⟩
  exact agrees_jump hjump hl.holds (hW.agrees (h.of_le hW.le)) h

end

end

end Machine

end ExprMachine
