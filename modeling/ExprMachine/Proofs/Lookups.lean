import ExprMachine.Proofs.ComprehensionLaws
import ExprMachine.Proofs.MapLiterals
import ExprMachine.Proofs.Sizes

/-!
# Tests for presence and lookups

Whether a value is there can be asked in several ways, and each has an implementation of its
own: `x in c`, `c.exists(j, j == x)`, `has(v.f)`, or by looking it up, `m[k]`, `v.f` and
`v["f"]`.

* A map has a value at a key exactly if it has a key that is equal to it in the language
  (`MapKey.isSome_lookup?_eq_any`). The operator `in` and the index of a map try the key and
  then the same integer of the other kind, and the comprehension compares the keys one by one.
* A field of a map or of a message is found under its name (`Value.field?`), by a selection as
  by an index.

So the tests and the lookups agree, on every container and with every key
(`presence_agrees`).

Where a map has the same integer under both kinds, each of the two keys finds its own value
(`MapKey.lookup?_of_mem`). So a comprehension over a map that looks up the keys that it visits
gives the values of all entries (`map_visits_entries`).
-/

namespace ExprMachine

/-! ## Keys and fields -/

/-- A map has a value at a key if one of its keys is equal to the key, and only then. -/
theorem MapKey.isSome_lookup?_eq_any (entries : Entries MapKey Value) (k : MapKey) :
    (lookup? entries k).isSome =
      (entries.map fun e => e.1.toValue).any fun j => j.equals k.toValue := by
  rw [Bool.eq_iff_iff, List.any_map, List.any_eq_true]
  simp only [Function.comp_apply, toValue_equals_iff]
  constructor
  · intro h
    obtain ⟨v, hv⟩ := Option.isSome_iff_exists.1 h
    obtain ⟨e, he, hnorm, -⟩ := exists_mem_of_lookup? hv
    exact ⟨e, he, hnorm⟩
  · rintro ⟨e, he, hnorm⟩
    have hget : (Entries.get? entries e.1).isSome :=
      (Entries.mem_keys_iff entries e.1).1 (List.mem_map_of_mem he)
    rw [lookup?, Option.isSome_or, Bool.or_eq_true_iff]
    -- A key that is equal to `k` is `k` itself or its twin, and both are tried.
    rcases norm_eq_iff.1 hnorm.symm with rfl | htwin
    · exact .inl hget
    · rw [htwin]
      exact .inr hget

namespace Value

/-- The value of a field of a map or of a message. -/
def field? : Value → String → Option Value
  | .map entries, f => Entries.get? entries (.string f)
  | .message _ fields, f => Entries.get? fields f
  | _, _ => none

/-- What is found is given, and what is not is an error that names the key. -/
theorem found_eq_elim (s : Span) (key : String) (found : Option Value) :
    item.found s key found = found.elim (.error ⟨s, .noSuchKey key⟩) .ok := by
  cases found <;> rfl

/-- The values that have fields. -/
def HasFields (v : Value) : Prop := v.kind = .map ∨ v.kind = .message

variable {v : Value} {f : String} (hv : v.HasFields) (s : Span)
include hv

/-- A presence test fails for no map and for no message. -/
theorem hasField_eq : v.hasField f s = .ok (v.field? f).isSome := by
  cases v with
  | map | message => rfl
  | _ => simp [HasFields, kind] at hv

/-- A selection gives what is there under the name. -/
theorem select_eq_elim :
    v.select f s = (v.field? f).elim (.error ⟨s, .noSuchKey f⟩) .ok := by
  cases v with
  | map entries =>
    rw [select, field?]
    cases Entries.get? entries (.string f) <;> rfl
  | message typeName fields =>
    rw [select, field?]
    cases Entries.get? fields f <;> rfl
  | _ => simp [HasFields, kind] at hv

theorem exists_item_eq_elim :
    ∃ key, v.item (.string f) s = (v.field? f).elim (.error ⟨s, .noSuchKey key⟩) .ok := by
  cases v with
  | map entries =>
    have hlookup : MapKey.lookup? entries (.string f) = Entries.get? entries (.string f) :=
      Option.or_none
    refine ⟨(Value.string f).text, (item_map entries (.string f) s).trans ?_⟩
    rw [hlookup, found_eq_elim]
    rfl
  | message typeName fields => exact ⟨f, found_eq_elim ..⟩
  | _ => simp [HasFields, kind] at hv

end Value

/-! ## The operator `in` -/

namespace Registry.Extends

variable {r : Registry} (h : r.Extends Standard.registry) (span : Span)
include h

/-- `in` compares the items of a list with the value. -/
theorem within_list (v : Value) (items : List Value) :
    r.applyBinary BinaryOperator.within.index v (.list items) span =
      .ok (.bool (items.any fun w => w.equals v)) := by
  have hmembership : .binary Standard.membership ∈ Standard.descriptors :=
    List.mem_of_getElem? (i := 11) rfl
  exact h.applyBinary hmembership v (.list items)
    (List.mem_append_left _ (List.mem_map_of_mem (Kind.mem_all v.kind))) span

/-- `in` looks for the key in a map, or for its twin. -/
theorem within_map (k : MapKey) (entries : Entries MapKey Value) :
    r.applyBinary BinaryOperator.within.index k.toValue (.map entries) span =
      .ok (.bool (MapKey.lookup? entries k).isSome) := by
  have hmembership : .binary Standard.membership ∈ Standard.descriptors :=
    List.mem_of_getElem? (i := 11) rfl
  have hkinds : ((k.toValue.kind, Kind.map), Standard.inMap) ∈ Standard.membership.overloads := by
    refine List.mem_append_right _ ?_
    cases k <;> simp [MapKey.toValue, Value.kind]
  refine (h.applyBinary hmembership k.toValue (.map entries) hkinds span).trans ?_
  cases k <;> rfl

end Registry.Extends

/-! ## Expressions -/

namespace Expr

/-- The expression `x in c`. The spans of its nodes are `s`, here and below. -/
def membership (x c : String) (s : Nat → Span) : Expr :=
  .binary .within (.ident x (s 0)) (.ident c (s 1)) (s 2)

/-- The expression `c.exists(j, j == x)`. -/
def existsEqual (c j x : String) (s : Nat → Span) : Expr :=
  (Comprehension.exists (.comparison j x s)).callOn j (.ident c (s 3)) (s 4) (s 5)

/-- The expression `c[x]`. -/
def itemAt (c x : String) (s : Nat → Span) : Expr :=
  .index (.ident c (s 0)) (.ident x (s 1)) (s 2)

/-- The expression `has(v.f)`. -/
def hasMember (v f : String) (s : Nat → Span) : Expr :=
  .call "has" [.member (.ident v (s 0)) f (s 1)] (s 2)

/-- The expression `v.f`. -/
def memberOf (v f : String) (s : Nat → Span) : Expr := .member (.ident v (s 0)) f (s 1)

/-- The expression `v["f"]`. -/
def memberAt (v f : String) (s : Nat → Span) : Expr :=
  .index (.ident v (s 0)) (.literal (.string f) (s 1)) (s 2)

variable {h : Host} {env : Environment} {x c : String} {v w : Value} {s : Nat → Span}

theorem eval_ident (hx : env.get? x = some v) (s : Span) :
    (Expr.ident x s).eval h true env = pure v := by
  rw [eval, hx]

theorem denotes_ident (hx : env.get? x = some v) (s : Span) :
    ((Expr.ident x s).eval h true env).Denotes v := by
  rw [eval_ident hx]
  exact Evaluation.denotes_pure_iff.2 rfl

/-- A strict operator is applied to the values of its operands. -/
theorem eval_binary_ident {op : BinaryOperator} (hop : Evaluation.deciding op = none)
    (hx : env.get? x = some v) (hc : env.get? c = some w) (s s' s'' : Span) :
    (Expr.binary op (.ident x s) (.ident c s') s'').eval h true env =
      Evaluation.ofResult (h.registry.applyBinary op.index v w s'') := by
  have hundecided : (v.asBool?.any fun b => Evaluation.deciding op = some b) = false := by
    simp [hop]
  rw [eval, eval_ident hx, eval_ident hc, Evaluation.binary, pure_bind, pure_bind, hundecided]
  rfl

section

variable (hx : env.get? x = some v) (hc : env.get? c = some w)
include hx hc

theorem eval_itemAt : (itemAt c x s).eval h true env = Evaluation.ofResult (w.item v (s 2)) := by
  rw [itemAt, eval, eval_ident hc, eval_ident hx, pure_bind, pure_bind]

theorem gives_itemAt : (itemAt c x s).Gives h env (w.item v (s 2)) :=
  gives_of_eval (by simp [itemAt, nodes]) (eval_itemAt hx hc)

theorem gives_membership {r : Except EvalError Value}
    (hr : h.registry.applyBinary BinaryOperator.within.index v w (s 2) = r) :
    (membership x c s).Gives h env r := by
  refine gives_of_eval (by simp [membership, nodes]) ?_
  rw [membership, eval_binary_ident rfl hx hc, hr]

open Comprehension Evaluation in
/-- The comprehension compares the items one by one, whatever its variable is called. -/
theorem gives_existsEqual (hext : h.registry.Extends Standard.registry) {j : String} (hj : j ≠ x)
    {items : List Value} (hitems : w.items (s 5) = .ok items) :
    (existsEqual c j x s).Gives h env (.ok (.bool (items.any fun item => item.equals v))) := by
  have hjudges : Judges (inside env j ((comparison j x s).clause h true))
      (fun item => item.equals v) items := by
    intro item _
    -- The body reads `x` in the scope of `j`, which does not hide it.
    have hitem := env.get?_bind_push_self j item
    have hx' := (env.get?_bind_push_of_ne j item hj).trans hx
    show ((comparison j x s).eval h true (env.push.bind j item)).Denotes _
    rw [comparison, eval_binary_ident rfl hitem hx', hext.equals_values]
    exact denotes_ofResult_iff.2 rfl
  refine gives_of_denotes (by simp [existsEqual, callOn, bodies, comparison, nodes, nodesOfEach]) ?_
  exact denotes_callOn_iff.2 ⟨w, items, denotes_ident hc _, hitems, denotes_exists hjudges⟩

end

section

variable (hx : env.get? x = some v) (hv : v.HasFields) {f : String}
include hx hv

theorem gives_hasMember : (hasMember x f s).Gives h env (.ok (.bool (v.field? f).isSome)) := by
  have htest : presence? true "has" [member (ident x (s 0)) f (s 1)] =
      some (ident x (s 0), f) := rfl
  refine gives_of_eval (by simp [hasMember, nodes, nodesOfEach]) ?_
  rw [hasMember, eval_call, htest]
  show (do return .bool (← Evaluation.ofResult ((← (ident x (s 0)).eval h true env).hasField f _)) :
    Evaluation Value) = _
  rw [eval_ident hx, pure_bind, Value.hasField_eq hv]
  rfl

theorem gives_memberOf :
    (memberOf x f s).Gives h env ((v.field? f).elim (.error ⟨s 1, .noSuchKey f⟩) .ok) := by
  refine gives_of_eval (by simp [memberOf, nodes]) ?_
  rw [memberOf, eval, eval_ident hx, pure_bind, Value.select_eq_elim hv]

theorem exists_gives_memberAt :
    ∃ key, (memberAt x f s).Gives h env ((v.field? f).elim (.error ⟨s 2, .noSuchKey key⟩) .ok) := by
  obtain ⟨key, hkey⟩ := Value.exists_item_eq_elim hv (f := f) (s 2)
  refine ⟨key, gives_of_eval (by simp [memberAt, nodes]) ?_⟩
  rw [memberAt, eval, eval_ident hx, pure_bind, ← hkey]
  rfl

end

end Expr

/-- Tests for presence agree with lookups.

    * `k in m` tells whether `m[k]` succeeds, and so does `m.exists(j, j == k)`.
    * `x in xs` gives what `xs.exists(j, j == x)` gives.
    * `has(v.f)` tells whether `v.f` and `v["f"]` succeed. They give the same value, or else
      both fail as the key is missing. -/
theorem presence_agrees {h : Host} (hext : h.registry.Extends Standard.registry)
    (env : Environment) :
    (∀ m k j entries key, env.get? m = some (.map entries) →
      env.get? k = some (MapKey.toValue key) → j ≠ k → ∃ found : Option Value, ∀ s : Nat → Span,
        (Expr.membership k m s).Gives h env (.ok (.bool found.isSome)) ∧
        (Expr.itemAt m k s).Gives h env
          (found.elim (.error ⟨s 2, .noSuchKey key.toValue.text⟩) .ok) ∧
        (Expr.existsEqual m j k s).Gives h env (.ok (.bool found.isSome))) ∧
    (∀ xs x j items v, env.get? xs = some (.list items) → env.get? x = some v → j ≠ x →
      ∃ found : Bool, ∀ s : Nat → Span,
        (Expr.membership x xs s).Gives h env (.ok (.bool found)) ∧
        (Expr.existsEqual xs j x s).Gives h env (.ok (.bool found))) ∧
    ∀ x v f, env.get? x = some v → v.HasFields → ∃ found : Option Value, ∀ s : Nat → Span,
      (Expr.hasMember x f s).Gives h env (.ok (.bool found.isSome)) ∧
      (Expr.memberOf x f s).Gives h env (found.elim (.error ⟨s 1, .noSuchKey f⟩) .ok) ∧
      ∃ key, (Expr.memberAt x f s).Gives h env
        (found.elim (.error ⟨s 2, .noSuchKey key⟩) .ok) := by
  -- What is found is named first; every way to ask is then shown to give it.
  refine ⟨fun m k j entries key hm hk hj => ⟨MapKey.lookup? entries key, fun s => ⟨?_, ?_, ?_⟩⟩,
    fun xs x j items v hxs hx hj => ⟨items.any fun w => w.equals v, fun s => ⟨?_, ?_⟩⟩,
    fun x v f hx hv => ⟨v.field? f, fun s => ⟨?_, ?_, ?_⟩⟩⟩
  · exact Expr.gives_membership hk hm (hext.within_map (s 2) key entries)
  · rw [← Value.found_eq_elim, ← Value.item_map]
    exact Expr.gives_itemAt hk hm
  · rw [MapKey.isSome_lookup?_eq_any]
    exact Expr.gives_existsEqual hk hm hext hj rfl
  · exact Expr.gives_membership hx hxs (hext.within_list (s 2) v items)
  · exact Expr.gives_existsEqual hx hxs hext hj rfl
  · exact Expr.gives_hasMember hx hv
  · exact Expr.gives_memberOf hx hv
  · exact Expr.exists_gives_memberAt hx hv

/-- A map with a signed integer and a string as keys. -/
def signedKeys : Value := .map [(.int 1, .string "a"), (.string "f", .null)]

/-- The variable `m` with the map, and `k` with the same integer unsigned. -/
def signedKeyHost : Environment := .ofVariables [("m", signedKeys), ("k", .uint 1)]

/-- The key is found under the other kind, and the field that is missing is missing for every
    test and lookup. -/
theorem presence_agrees_signedKeyHost :
    let h : Host := ⟨Standard.registry, none⟩
    let s : Nat → Span := fun _ => ⟨0, 6⟩
    (Expr.membership "k" "m" s).Gives h signedKeyHost (.ok (.bool true)) ∧
      (Expr.existsEqual "m" "j" "k" s).Gives h signedKeyHost (.ok (.bool true)) ∧
      (Expr.hasMember "m" "g" s).Gives h signedKeyHost (.ok (.bool false)) ∧
      ∃ key, (Expr.memberAt "m" "g" s).Gives h signedKeyHost
        (.error ⟨⟨0, 6⟩, .noSuchKey key⟩) := by
  intro h s
  obtain ⟨hmap, -, hfield⟩ :=
    presence_agrees (h := h) (fun _ _ _ hfind => hfind) signedKeyHost
  obtain ⟨found, hfound⟩ := hmap "m" "k" "j" _ (.uint 1) rfl rfl (by decide)
  obtain ⟨hin, hat, hexists⟩ := hfound s
  obtain ⟨found', hfound'⟩ := hfield "m" _ "g" rfl (.inl rfl)
  obtain ⟨hhas, hof, hat'⟩ := hfound' s
  have hvalue : signedKeys.item (.uint 1) ⟨0, 6⟩ = .ok (.string "a") := rfl
  have hitem : (Expr.itemAt "m" "k" s).Gives h signedKeyHost (.ok (.string "a")) :=
    hvalue ▸ Expr.gives_itemAt rfl rfl
  have hmissing : (Expr.memberOf "m" "g" s).Gives h signedKeyHost
      (.error ⟨⟨0, 6⟩, .noSuchKey "g"⟩) := Expr.gives_memberOf (v := signedKeys) rfl (.inl rfl)
  cases found with
  | none => exact absurd (hat.eq hitem) nofun
  | some v =>
    cases found' with
    | none => exact ⟨hin, hexists, hhas, hat'⟩
    | some w => exact absurd (hof.eq hmissing) nofun

/-! ## Visiting a map -/

/-- A key that a map has finds its own value, although the same integer of the other kind may
    be a key too. -/
theorem MapKey.lookup?_of_mem {entries : Entries MapKey Value} (hnodup : entries.keys.Nodup)
    {e : MapKey × Value} (he : e ∈ entries) : lookup? entries e.1 = some e.2 := by
  rw [lookup?, (Entries.get?_eq_some_iff_mem hnodup).2 he]
  rfl

namespace Expr

/-- The expression `m.map(k, m[k])`. -/
def valuesOf (m k : String) (s : Nat → Span) : Expr :=
  (Comprehension.transform (.itemAt m k s)).callOn k (.ident m (s 3)) (s 4) (s 5)

/-- The expression `m.map(k, k)`. -/
def keysOf (m k : String) (s : Nat → Span) : Expr :=
  (Comprehension.transform (.ident k (s 0))).callOn k (.ident m (s 3)) (s 4) (s 5)

end Expr

section

variable {h : Host} {env : Environment} {m k : String} {entries : Entries MapKey Value}

open Evaluation in
/-- A comprehension over a map gives what its body gives for the keys, one by one. -/
theorem Comprehension.denotes_transform_keys {body : Expr} {g : MapKey × Value → Value}
    (hm : env.get? m = some (.map entries)) (hbody : ∀ e ∈ entries,
      (body.eval h true (env.push.bind k e.1.toValue)).Denotes (g e)) (s s' s'' : Span) :
    (((transform body).callOn k (.ident m s) s' s'').eval h true env).Denotes
      (.list (entries.map g)) := by
  have hitems : ∀ v ∈ entries.map (fun e => e.1.toValue),
      ∃ w, (inside env k (body.clause h true) v).Denotes w := by
    intro v hv
    obtain ⟨e, he, rfl⟩ := List.mem_map.1 hv
    exact ⟨g e, hbody e he⟩
  choose! value hvalue using hitems
  refine denotes_callOn_iff.2
    ⟨_, _, Expr.denotes_ident hm s, rfl, denotes_transform_iff.2 ⟨value, hvalue, congrArg _ ?_⟩⟩
  rw [List.map_map]
  exact List.map_congr_left fun e he =>
    (hbody e he).eq (hvalue _ (List.mem_map_of_mem (f := fun e => e.1.toValue) he))

end

/-- A comprehension over a map visits every entry once and in order: it finds the values at the
    keys that it visits, and these are the keys of the map. -/
theorem map_visits_entries (h : Host) (env : Environment) {m k : String}
    {entries : Entries MapKey Value} (hm : env.get? m = some (.map entries))
    (hnodup : entries.keys.Nodup) (hk : k ≠ m) (s : Nat → Span) :
    (Expr.valuesOf m k s).Gives h env (.ok (.list (entries.map fun e => e.2))) ∧
      (Expr.keysOf m k s).Gives h env (.ok (.list (entries.map fun e => e.1.toValue))) := by
  have hkey (v : Value) : (env.push.bind k v).get? k = some v := env.get?_bind_push_self k v
  have hmap (v : Value) : (env.push.bind k v).get? m = some (.map entries) :=
    (env.get?_bind_push_of_ne k v hk).trans hm
  constructor
  · refine Expr.gives_of_denotes
      (by simp [Expr.valuesOf, Comprehension.callOn, Comprehension.bodies, Expr.itemAt, Expr.nodes,
        nodesOfEach]) (Comprehension.denotes_transform_keys hm (fun e he => ?_) _ _ _)
    rw [Expr.eval_itemAt (hkey _) (hmap _), Value.item_map, MapKey.lookup?_of_mem hnodup he]
    exact Evaluation.denotes_pure_iff.2 rfl
  · refine Expr.gives_of_denotes
      (by simp [Expr.keysOf, Comprehension.callOn, Comprehension.bodies, Expr.nodes, nodesOfEach])
      (Comprehension.denotes_transform_keys hm (fun e _ => ?_) _ _ _)
    exact Expr.denotes_ident (hkey _) _

/-- A map with one integer as a key of either kind. -/
def twinKeys : Value := .map [(.uint 1, .string "u"), (.string "k", .null), (.int 1, .string "i")]

/-- Each of the two keys has its own value. -/
theorem map_visits_entries_twinKeys :
    let h : Host := ⟨RegistryBuilder.empty.build, none⟩
    let s : Nat → Span := fun _ => ⟨0, 6⟩
    (Expr.valuesOf "m" "k" s).Gives h (.ofVariables [("m", twinKeys)])
        (.ok (.list [.string "u", .null, .string "i"])) ∧
      (Expr.keysOf "m" "k" s).Gives h (.ofVariables [("m", twinKeys)])
        (.ok (.list [.uint 1, .string "k", .int 1])) := by
  intro h s
  have hm : (Environment.ofVariables [("m", twinKeys)]).get? "m" = some twinKeys := rfl
  exact map_visits_entries h _ hm (by decide) (by decide) s

end ExprMachine
