import ExprMachine.Proofs.SoundCode

/-!
# The code of expressions is sound

A comprehension is a loop in a scope of its own. Its code is sound if the code of
its target and of its bodies is, and so all code of expressions is sound
(`Expr.sound_lower`), by induction on the expression.
-/

namespace ExprMachine

open Build

namespace Lowering

variable {d : Draft} {s : Span}

/-! ## Comprehensions -/

/-- The result of a comprehension is set in a register that has been handed out. -/
theorem sound_start {β : Type} (form : Comprehension β) {acc : Nat} (hacc : IsRegister acc d) :
    (start form acc s).Sound d fun _ _ => True := by
  cases form with
  | all | «exists» | existsOne => exact sound_emit rfl (slots rfl hacc rfl rfl rfl) trivial
  | filter | transform | filterTransform =>
    exact sound_emit rfl (slots rfl hacc hacc trivial rfl) (Nat.le_of_lt hacc)

/-- A loop is left by a jump to the end of the piece. -/
theorem sound_decided (stop : Bool) {acc : Nat} (hacc : IsRegister acc d) :
    (decided stop acc s).Sound d fun _ _ => True := by
  have hload : (emit (if stop then .loadTrue else .loadFalse) acc 0 0 0 s).Sound d
      fun _ _ => True := by
    cases stop <;> exact sound_emit rfl (slots rfl hacc rfl rfl rfl) trivial
  refine hload.bind fun _ e _ _ => ?_
  exact Sound.after (.pure trivial) (fun _ _ => rfl) fun f hf =>
    wellFormed_of_reserved hf (slots rfl rfl ⟨_, Nat.le_refl _, rfl⟩ rfl rfl) trivial

/-- Appending an item is followed by a jump back. -/
theorem sound_append {acc r head : Nat} (hacc : IsRegister acc d) (hr : IsRegister r d)
    (hhead : d.Admits .target head) : (append acc r head s).Sound d fun _ _ => True := by
  have happend : (emit .listAppend acc r 0 0 s).Sound d fun _ _ => True :=
    sound_emit rfl (slots rfl hacc hr rfl rfl) trivial
  exact happend.bind fun _ e he _ =>
    sound_emit rfl (slots rfl rfl (he.admits hhead) rfl rfl) trivial

theorem sound_count {acc head : Nat} (hacc : IsRegister acc d) (hhead : d.Admits .target head) :
    (count acc head s).Sound d fun _ _ => True := by
  refine sound_checkOver (k := 0) rfl hacc (fun e he => ?_) (fun e he => ?_) fun e => ?_
  · have hload : (emit .loadTrue acc 0 0 0 s).Sound e fun _ _ => True :=
      sound_emit rfl (slots rfl (he.isRegister hacc) rfl rfl rfl) trivial
    exact hload.bind fun _ f hf _ =>
      sound_emit rfl (slots rfl rfl ((he.trans hf).admits hhead) rfl rfl) trivial
  · exact sound_emit rfl (slots rfl (he.isRegister hacc) rfl rfl rfl) trivial
  · exact ⟨e.records, Nat.le_succ _, rfl⟩

section

variable {form : Comprehension Body} (hlawful : ∀ b ∈ form.bodies, Lawful b.build)
  (hform : ∀ b ∈ form.bodies, ∀ e, b.build.Sound e IsRegister)
include hlawful hform

/-- The code for one item is sound if the bodies are, wherever they stand. -/
theorem sound_loopBody {acc item head : Nat} (hacc : IsRegister acc d) (hitem : IsRegister item d)
    (hhead : d.Admits .target head) :
    (loopBody form acc item head s).Sound d fun _ _ => True := by
  cases form with
  | all p =>
    have := hlawful p (List.mem_singleton_self p)
    have hp := hform p (List.mem_singleton_self p) d
    exact sound_guarded (z := decided false acc s) rfl hp hhead fun e he =>
      sound_decided false (he.isRegister hacc)
  | «exists» p =>
    have := hlawful p (List.mem_singleton_self p)
    have hp := hform p (List.mem_singleton_self p) d
    exact sound_guarded (z := decided true acc s) rfl hp hhead fun e he =>
      sound_decided true (he.isRegister hacc)
  | existsOne p =>
    have := hlawful p (List.mem_singleton_self p)
    have hp := hform p (List.mem_singleton_self p) d
    exact sound_guarded (z := count acc head s) rfl hp hhead fun e he =>
      sound_count (he.isRegister hacc) (he.admits hhead)
  | filter p =>
    have := hlawful p (List.mem_singleton_self p)
    have hp := hform p (List.mem_singleton_self p) d
    exact sound_guarded (z := append acc item head s) rfl hp hhead fun e he =>
      sound_append (he.isRegister hacc) (he.isRegister hitem) (he.admits hhead)
  | transform b =>
    have := hlawful b (List.mem_singleton_self b)
    have hb := hform b (List.mem_singleton_self b) d
    exact hb.bind fun v e he hv => sound_append (he.isRegister hacc) hv (he.admits hhead)
  | filterTransform p b =>
    have hmem := List.mem_cons_of_mem p (List.mem_singleton_self b)
    have := hlawful p List.mem_cons_self
    have := hlawful b hmem
    have hp := hform p List.mem_cons_self d
    refine sound_guarded rfl hp hhead fun e he => (hform b hmem e).bind fun v f hf hv => ?_
    exact sound_append ((he.trans hf).isRegister hacc) hv ((he.trans hf).admits hhead)

/-- A turn of the loop binds its variable before the body. -/
theorem sound_turn (x : String) {acc item head : Nat} (hacc : IsRegister acc d)
    (hitem : IsRegister item d) (hhead : d.Admits .target head) :
    (turn x form acc item head s).Sound d fun _ _ => True := by
  have := lawful_loopBody form hlawful
  refine (sound_string x d).bind fun name e he hname => ?_
  have hbind : (emit .bindVar 0 name item 0 s).Sound e fun _ _ => True :=
    sound_emit rfl (slots rfl rfl hname (he.isRegister hitem) rfl) trivial
  refine hbind.bind fun _ f hf _ => ?_
  have hg := he.trans hf
  exact sound_loopBody hlawful hform (hg.isRegister hacc) (hg.isRegister hitem) (hg.admits hhead)

/-- The loop is left where its iterator has no items any more, which is behind its last record. -/
theorem sound_loop (x : String) {iterator acc : Nat} (hiterator : IsRegister iterator d)
    (hacc : IsRegister acc d) : (loop x form iterator acc s).Sound d fun _ _ => True := by
  have := lawful_turn x form hlawful
  have hhere : here.Sound d fun head e => e.Admits .target head :=
    .silent rfl ⟨_, Nat.le_refl _, rfl⟩
  refine hhere.bind fun head e he hhead => (sound_fresh e).bind fun item f hf hitem => ?_
  have hg := grows_reserved f s
  have hdf := he.trans hf
  refine Sound.after ?_ (fun _ _ => rfl) fun g hfg => ?_
  · exact sound_turn hlawful hform x ((hdf.trans hg).isRegister hacc) (hg.isRegister hitem)
      ((hf.trans hg).admits hhead)
  · have hg := hg.trans hfg
    exact wellFormed_of_reserved hfg (slots rfl (hg.isRegister hitem)
      ((hdf.trans hg).isRegister hiterator) ⟨_, Nat.le_refl _, rfl⟩ rfl) trivial

omit hlawful hform in
/-- A piece in a scope of its own. -/
theorem sound_scope {z : Build Unit} [Lawful z] (hz : z.Sound (reserved d s) fun _ _ => True) :
    (do
      emit .scopePush 0 0 0 0 s
      z
      emit .scopePop 0 0 0 0 s : Build Unit).Sound d fun _ _ => True := by
  let e := (z (reserved d s)).draft
  have hg : (reserved d s).Grows e := grows z (reserved d s)
  have hpush : Line.WellFormed ⟨.scopePush, 0, 0, 0, 0, (intern d.spans s).1⟩ e :=
    wellFormed_of_reserved hg (slots rfl rfl rfl rfl rfl) trivial
  have hpop : Line.WellFormed ⟨.scopePop, 0, 0, 0, 0, (intern e.spans s).1⟩ (reserved e s) :=
    wellFormed_of_reserved (.refl _) (slots rfl rfl rfl rfl rfl) trivial
  have hlast := grows_reserved e s
  refine ⟨.scope hz.structured rfl rfl, fun l hl => ?_, trivial⟩
  rcases List.mem_cons.1 hl with rfl | hl
  · exact hpush.mono hlast
  · replace hl : l ∈ (z (reserved d s)).lines ++ [_] := hl
    rcases List.mem_append.1 hl with hl | hl
    · exact (hz.wellFormed l hl).mono hlast
    · obtain rfl := List.mem_singleton.1 hl
      exact hpop

theorem sound_rounds (x : String) {iterator : Nat} (hiterator : IsRegister iterator d) :
    (rounds x form iterator s).Sound d IsRegister := by
  have := lawful_loop x form hlawful
  have := valued_rounds x form hlawful
  refine sound_of_valued ((sound_fresh d).bind fun acc e he hacc => ?_)
  refine (sound_start form hacc).bind fun _ f hf _ => ?_
  -- The loop and the records around it are taken together, since entering and
  -- leaving a scope are not structured by themselves.
  have heq (y : Build Nat) : (do
      emit .scopePush 0 0 0 0 s
      loop x form iterator acc s
      emit .scopePop 0 0 0 0 s
      y) = ((do
        emit .scopePush 0 0 0 0 s
        loop x form iterator acc s
        emit .scopePop 0 0 0 0 s) >>= fun _ => y) := by
    simp only [bind_assoc]
  rw [heq]
  have hg := hf.trans (grows_reserved f s)
  have hloop := sound_loop (s := s) hlawful hform x ((he.trans hg).isRegister hiterator)
    (hg.isRegister hacc)
  refine (sound_scope hloop).bind fun _ g hg _ => (sound_fresh g).bind fun result k hk hresult => ?_
  have hmove : (emit .move result acc 0 0 s).Sound k fun _ _ => True :=
    sound_emit rfl (slots rfl hresult ((hf.trans (hg.trans hk)).isRegister hacc) rfl rfl) trivial
  exact hmove.bind fun _ _ _ _ => .pure trivial

theorem sound_comprehension {target : Build Nat} [Lawful target]
    (htarget : target.Sound d IsRegister) (x : String) :
    (comprehension target x form s).Sound d IsRegister := by
  have (iterator : Nat) := valued_rounds x form hlawful iterator s
  rw [comprehension_eq]
  refine htarget.bind fun source e _ hsource => (sound_fresh e).bind fun iterator f hf hit => ?_
  have hinit : (emit .iterInit iterator source 0 0 s).Sound f fun _ _ => True :=
    sound_emit rfl (slots rfl hit (hf.isRegister hsource) rfl rfl) trivial
  exact hinit.bind fun _ g hg _ => sound_rounds hlawful hform x (hg.isRegister hit)

end

end Lowering

/-! ## Expressions -/

open Lowering

/-- The code of expressions yields one register for each of them. -/
theorem sound_lowerAll {macros : Bool} (es : List Expr)
    (h : ∀ a ∈ es, ∀ d, (a.lower macros).Sound d IsRegister) (d : Draft) :
    (lowerAll macros es).Sound d fun regs e =>
      regs.length = es.length ∧ ∀ r ∈ regs, IsRegister r e := by
  induction es generalizing d with
  | nil =>
    rw [lowerAll]
    exact .pure ⟨rfl, fun r hr => by cases hr⟩
  | cons a rest ih =>
    rw [lowerAll]
    refine (h a List.mem_cons_self d).bind fun r e _ hr => ?_
    refine (ih (fun b hb => h b (List.mem_cons_of_mem a hb)) e).bind fun rs f hf hrs => ?_
    refine .pure ⟨congrArg (· + 1) hrs.1, fun q hq => ?_⟩
    rcases List.mem_cons.1 hq with rfl | hq
    · exact hf.isRegister hr
    · exact hrs.2 q hq

/-- The code of every expression is sound, wherever it is built. -/
theorem Expr.sound_lower (macros : Bool) (e : Expr) (d : Draft) :
    (e.lower macros).Sound d IsRegister := by
  induction e using Expr.induct generalizing d with
  | step e ih =>
    cases e with
    | literal l s =>
      rw [lower]
      exact sound_literal l s d
    | ident name s =>
      rw [lower]
      exact sound_ident name s d
    | list items s =>
      rw [lower]
      refine (sound_lowerAll items ih d).bind fun regs e _ hregs => ?_
      exact sound_aggregate rfl rfl (fun _ _ _ _ hbase => hbase) hregs.2
    | map entries s =>
      rw [lower, lowerEntries_eq]
      refine (sound_lowerAll (entries.flatMap fun p : Expr × Expr => [p.1, p.2]) ih d).bind
        fun regs e _ hregs => ?_
      refine sound_aggregate rfl rfl (fun base dst i f hbase => ?_) hregs.2
      rwa [hregs.1, length_flatMap_pair] at hbase
    | message typeName fields s =>
      rw [lower, lowerFields_eq]
      refine (sound_lowerAll (fields.map Prod.snd) ih d).bind fun regs e _ hregs => ?_
      refine sound_message typeName ?_ hregs.2
      rw [hregs.1, List.length_map, List.length_map]
    | unary op operand s =>
      have hoperand := ih operand (by simp [parts]) d
      rw [lower]
      exact sound_unary op hoperand
    | binary op left right s =>
      have hleft := ih left (by simp [parts])
      have hright := ih right (by simp [parts])
      rw [lower]
      split
      · rename_i hop
        exact sound_shortCircuit hop (hleft d) hright
      · exact sound_strict op (hleft d) hright
    | conditional c whenTrue whenFalse s =>
      have : Lawful (Body.mk (c.lower macros) c.span).build := (Expr.valued_lower macros c).toLawful
      have hc := ih c (by simp [parts]) d
      have htrue := ih whenTrue (by simp [parts])
      have hfalse := ih whenFalse (by simp [parts])
      rw [lower]
      exact sound_choose hc htrue hfalse
    | member operand field s =>
      have hoperand := ih operand (by simp [parts]) d
      rw [lower]
      exact sound_select (.inl rfl) field hoperand
    | index operand position s =>
      have hoperand := ih operand (by simp [parts]) d
      have hposition := ih position (by simp [parts])
      rw [lower]
      exact sound_index hoperand hposition
    | call function args s =>
      rw [lower_call]
      split
      · rename_i operand field hp
        have hoperand := ih operand (mem_parts_of_presence? hp) d
        exact sound_select (.inr rfl) field hoperand
      · have hargs := sound_lowerAll args fun a ha => ih a (List.mem_append_left _ ha)
        exact (hargs d).bind fun regs e _ hregs => sound_call function hregs.2
    | method target function args s =>
      have htarget := ih target List.mem_cons_self d
      rw [lower_method]
      split
      · rename_i x form hf
        refine sound_comprehension (lawful_bodies macros form) (fun b hb => ?_) htarget x
        obtain ⟨a, ha, rfl⟩ := Comprehension.mem_bodies_map hb
        exact ih a (List.mem_cons_of_mem _ (mem_args_of_loop? hf a ha))
      · have hargs := sound_lowerAll args fun a ha => ih a (List.mem_cons_of_mem target ha)
        refine htarget.bind fun first e _ hfirst => (hargs e).bind fun rest f hf hrest => ?_
        refine sound_call function fun r hr => ?_
        rcases List.mem_cons.1 hr with rfl | hr
        · exact hf.isRegister hfirst
        · exact hrest.2 r hr
    | paren inner s =>
      rw [lower]
      exact ih inner (by simp [parts]) d

end ExprMachine
