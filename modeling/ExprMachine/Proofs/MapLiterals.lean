import ExprMachine.Proofs.Equality

/-!
# Map literals that are indexed

Of the entries of a map literal with one key, the last one counts
(`Entries.get?_ofPairs`). An index finds the last entry with the key that it is itself, and
only if there is none, the last one with the same integer of the other kind
(`MapKey.lookup?_ofPairs`).

So an index finds the last entry whose key equals it, if no integer is a key of the literal
under both kinds (`Machine.exists_execute_indexing`); otherwise it may find an earlier one
(`Machine.execute_indexing_twinned`).
-/

namespace ExprMachine

namespace Entries

variable {κ α : Type} {test test' : κ → Bool} {pairs : List (κ × α)}

/-- The value of the last of some pairs whose key passes a test. -/
def lastValue? (test : κ → Bool) (pairs : List (κ × α)) : Option α :=
  (pairs.reverse.find? fun e => test e.1).map Prod.snd

theorem lastValue?_cons (e : κ × α) :
    lastValue? test (e :: pairs) =
      (lastValue? test pairs).or (if test e.1 then some e.2 else none) := by
  rw [lastValue?, List.reverse_cons, List.find?_append, Option.map_or, lastValue?]
  by_cases h : test e.1 <;> simp [h]

theorem lastValue?_congr (h : ∀ e ∈ pairs, test e.1 = test' e.1) :
    lastValue? test pairs = lastValue? test' pairs := by
  induction pairs with
  | nil => rfl
  | cons e rest ih =>
    obtain ⟨he, hrest⟩ := List.forall_mem_cons.1 h
    rw [lastValue?_cons, lastValue?_cons, ih hrest, he]

theorem exists_mem_of_lastValue? {v : α} (h : lastValue? test pairs = some v) :
    ∃ e ∈ pairs, test e.1 ∧ e.2 = v := by
  obtain ⟨e, he, rfl⟩ := Option.map_eq_some_iff.1 h
  exact ⟨e, List.mem_reverse.1 (List.mem_of_find?_eq_some he),
    List.find?_some (p := fun e : κ × α => test e.1) he, rfl⟩

theorem not_of_lastValue?_eq_none (h : lastValue? test pairs = none) :
    ∀ e ∈ pairs, ¬ test e.1 := by
  intro e he
  exact List.find?_eq_none.1 (Option.map_eq_none_iff.1 h) e (List.mem_reverse.2 he)

variable [DecidableEq κ]

theorem get?_foldl_insert (t : Entries κ α) (pairs : List (κ × α)) (k : κ) :
    (pairs.foldl (fun t e => t.insert e.1 e.2) t).get? k =
      (lastValue? (fun j => j = k) pairs).or (t.get? k) := by
  induction pairs generalizing t with
  | nil => rfl
  | cons e rest ih =>
    rw [List.foldl_cons, ih, get?_insert, lastValue?_cons, Option.or_assoc]
    by_cases h : e.1 = k <;> simp [h]

/-- A table that holds some pairs has the value of the last one at each key. -/
theorem get?_ofPairs (pairs : List (κ × α)) (k : κ) :
    (ofPairs pairs).get? k = lastValue? (fun j => j = k) pairs := by
  rw [ofPairs, get?_foldl_insert]
  exact Option.or_none

end Entries

/-! ## Keys as values -/

namespace MapKey

/-- Keys are equal as values if they stand for the same. -/
theorem toValue_equals_iff {j k : MapKey} : j.toValue.equals k.toValue ↔ j.norm = k.norm := by
  cases j with
  | int | uint =>
    cases k with
    | int | uint =>
      rw [toValue, toValue, Value.equals_of_number rfl rfl]
      simp [Number.compare, norm, Std.LawfulEqCmp.compare_eq_iff_eq]
    | string => simp [toValue, Value.equals, Value.kind, Kind.isNumeric, Value.same, norm]
  | string =>
    cases k <;> simp [toValue, Value.equals, Value.kind, Kind.isNumeric, Value.same, norm]

open Entries in
/-- An index finds the last entry with the key that it is, or else the last one with a key
    equal to it. -/
theorem lookup?_ofPairs (pairs : List (MapKey × Value)) (k : MapKey) :
    lookup? (ofPairs pairs) k =
      (lastValue? (fun j => j = k) pairs).or
        (lastValue? (fun j => j.toValue.equals k.toValue) pairs) := by
  rw [lookup?, get?_ofPairs]
  cases hk : lastValue? (fun j => j = k) pairs with
  | some v => rfl
  | none =>
    -- Without the key itself, what equals it is its twin.
    have hne := not_of_lastValue?_eq_none hk
    rw [Option.none_or, Option.none_or]
    cases htwin : k.twin? with
    | none =>
      symm
      rw [Option.bind_none, Option.eq_none_iff_forall_ne_some]
      intro v hv
      obtain ⟨e, he, hequals, -⟩ := exists_mem_of_lastValue? hv
      rcases norm_eq_iff.1 (toValue_equals_iff.1 hequals).symm with rfl | htwin'
      · exact hne e he (decide_eq_true rfl)
      · rw [htwin] at htwin'
        cases htwin'
    | some j =>
      rw [Option.bind_some, get?_ofPairs]
      refine lastValue?_congr fun e he => ?_
      have hek : k ≠ e.1 := fun h => hne e he (decide_eq_true h.symm)
      rw [Bool.eq_iff_iff, decide_eq_true_eq, toValue_equals_iff, eq_comm, eq_comm (b := k.norm),
        norm_eq_iff, htwin, Option.some.injEq, or_iff_right hek, eq_comm]

open Entries in
/-- Where all keys that equal an index are one key, the last of them is the last one with the
    key that the index is, if there is any. -/
theorem lastValue?_or_equals {pairs : List (MapKey × Value)} {k : MapKey}
    (h : ∀ e ∈ pairs, ∀ e' ∈ pairs, e.1.toValue.equals k.toValue → e'.1.toValue.equals k.toValue →
      e.1 = e'.1) :
    (lastValue? (fun j => j = k) pairs).or
        (lastValue? (fun j => j.toValue.equals k.toValue) pairs) =
      lastValue? (fun j => j.toValue.equals k.toValue) pairs := by
  cases hk : lastValue? (fun j => j = k) pairs with
  | none => exact Option.none_or
  | some v =>
    obtain ⟨e, he, hek, rfl⟩ := exists_mem_of_lastValue? hk
    obtain rfl : e.1 = k := of_decide_eq_true hek
    rw [Option.some_or, ← hk]
    refine lastValue?_congr fun e' he' => ?_
    rw [Bool.eq_iff_iff, decide_eq_true_eq]
    exact ⟨fun heq => toValue_equals_iff.2 (heq ▸ rfl),
      fun hequals => h e' he' e he hequals (toValue_equals_iff.2 rfl)⟩

theorem ofValue?_eq_some_iff {v : Value} {k : MapKey} : ofValue? v = some k ↔ v = k.toValue := by
  constructor
  · intro h
    cases v <;> cases h <;> rfl
  · rintro rfl
    exact ofValue?_toValue k

end MapKey

namespace Value

/-- Keys and values in turn. -/
def inTurn (pairs : List (MapKey × Value)) : List Value :=
  pairs.flatMap fun e => [e.1.toValue, e.2]

theorem inTurn_injective : Function.Injective inTurn := by
  intro pairs pairs' h
  induction pairs generalizing pairs' with
  | nil =>
    cases pairs' with
    | nil => rfl
    | cons e' rest' => cases h
  | cons e rest ih =>
    cases pairs' with
    | nil => cases h
    | cons e' rest' =>
      obtain ⟨hkey, htail⟩ := List.cons.inj h
      obtain ⟨hvalue, hrest⟩ := List.cons.inj htail
      have hkey : e.1 = e'.1 := by
        have hof := congrArg MapKey.ofValue? hkey
        rwa [MapKey.ofValue?_toValue, MapKey.ofValue?_toValue, Option.some.injEq] at hof
      rw [Prod.ext hkey hvalue, ih hrest]

theorem item_map (entries : Entries MapKey Value) (k : MapKey) (span : Span) :
    (map entries).item k.toValue span =
      item.found span k.toValue.text (MapKey.lookup? entries k) := by
  cases k <;> rfl

end Value

/-! ## Evaluating a literal -/

namespace Evaluation

variable {α β : Type} {ev : Evaluation α} {f : α → Evaluation β} {c c' : Bool}

theorem bind_of_ok {a : α} (h : ev c = .ok a c') : (ev >>= f) c = f a c' := by
  show EStateM.bind ev f c = _
  rw [EStateM.bind, h]

theorem exists_of_bind_ok {b : β} (h : (ev >>= f) c = .ok b c') :
    ∃ a c'', ev c = .ok a c'' ∧ f a c'' = .ok b c' := by
  change EStateM.bind ev f c = _ at h
  rw [EStateM.bind] at h
  split at h
  · exact ⟨_, _, ‹_›, h⟩
  · cases h

theorem eq_of_ofResult_ok {r : Except EvalError α} {a : α} (h : ofResult r c = .ok a c') :
    r = .ok a ∧ c = c' := by
  cases r <;> cases h
  exact ⟨rfl, rfl⟩

end Evaluation

section

open Evaluation Value

variable {h : Host} {macros : Bool} {env : Environment} {entries : List (Expr × Expr)}
  {s : Span} {c c' : Bool}

/-- Entries that make a map evaluate to keys and values in turn. -/
theorem exists_pairs_of_addEntries {vs : List Value} {built t : Entries MapKey Value}
    (hvs : evalEntries h macros entries env c = .ok vs c') (ht : addEntries built s vs = .ok t) :
    ∃ pairs, vs = inTurn pairs ∧ t = pairs.foldl (fun t e => t.insert e.1 e.2) built := by
  induction entries generalizing c vs built with
  | nil =>
    cases hvs
    cases ht
    exact ⟨[], rfl, rfl⟩
  | cons e rest ih =>
    obtain ⟨k, c₁, -, hvs⟩ := exists_of_bind_ok hvs
    obtain ⟨v, c₂, -, hvs⟩ := exists_of_bind_ok hvs
    obtain ⟨vs', c₃, hrest, hvs⟩ := exists_of_bind_ok hvs
    cases hvs
    rw [addEntries] at ht
    split at ht
    · rename_i key hkey
      obtain ⟨pairs, rfl, rfl⟩ := ih hrest ht
      obtain rfl := MapKey.ofValue?_eq_some_iff.1 hkey
      exact ⟨(key, v) :: pairs, rfl, rfl⟩
    · cases ht

/-- A map literal evaluates to the table of the keys and values of its entries. -/
theorem exists_pairs_of_eval_map {v : Value}
    (hv : (Expr.map entries s).eval h macros env c = .ok v c') :
    ∃ pairs, evalEntries h macros entries env c = .ok (inTurn pairs) c' ∧
      v = .map (Entries.ofPairs pairs) := by
  rw [Expr.eval] at hv
  obtain ⟨vs, c₁, hvs, hv⟩ := exists_of_bind_ok hv
  obtain ⟨t, c₂, ht, hv⟩ := exists_of_bind_ok hv
  cases hv
  obtain ⟨hadd, rfl⟩ := eq_of_ofResult_ok ht
  obtain ⟨pairs, rfl, rfl⟩ := exists_pairs_of_addEntries hvs hadd
  exact ⟨pairs, hvs, rfl⟩

end

/-! ## Indexing a literal -/

namespace Machine

open Entries Value

variable {h : Host} {options : CompileOptions} {p : Program} {entries : List (Expr × Expr)}
  {position : Expr} {s s' : Span} {env : Environment} {literal : Value} {all all' : Bool}
  {k : MapKey}

/-- The program of an indexed map literal gives the last value at the key that the index is,
    or else the last one at a key that equals it, or else fails. -/
theorem exists_execute_index
    (hp : compile options (.index (.map entries s) position s') = .ok p)
    (hliteral : (Expr.map entries s).eval h options.macros env true = .ok literal all)
    (hposition : position.eval h options.macros env all = .ok k.toValue all') :
    ∃ pairs fuel,
      evalEntries h options.macros entries env true = .ok (inTurn pairs) all ∧
      (h.machine p).execute fuel env =
        some ⟨item.found s' k.toValue.text ((lastValue? (fun j => j = k) pairs).or
          (lastValue? (fun j => j.toValue.equals k.toValue) pairs)), all', env⟩ := by
  obtain ⟨pairs, hpairs, rfl⟩ := exists_pairs_of_eval_map hliteral
  obtain ⟨fuel, hfuel⟩ := exists_execute_eq (m := h.machine p) hp env
  refine ⟨pairs, fuel, hpairs, hfuel.trans (congrArg some ?_)⟩
  rw [Evaluation.execution, Expr.eval, Evaluation.bind_of_ok hliteral,
    Evaluation.bind_of_ok hposition, item_map, MapKey.lookup?_ofPairs]
  cases item.found s' k.toValue.text _ <;> rfl

/-- An index into a map literal finds the last value at the key that it is, or else the last
    one at a key that equals it, or else nothing, which is an error. So it finds the last
    value at a key that equals it, if all those keys are of one kind. -/
theorem exists_execute_indexing
    (hp : compile options (.index (.map entries s) position s') = .ok p)
    (hliteral : (Expr.map entries s).eval h options.macros env true = .ok literal all)
    (hposition : position.eval h options.macros env all = .ok k.toValue all') :
    ∃ pairs fuel,
      evalEntries h options.macros entries env true = .ok (inTurn pairs) all ∧
      (h.machine p).execute fuel env =
        some ⟨item.found s' k.toValue.text ((lastValue? (fun j => j = k) pairs).or
          (lastValue? (fun j => j.toValue.equals k.toValue) pairs)), all', env⟩ ∧
      ((∀ e ∈ pairs, ∀ e' ∈ pairs, e.1.toValue.equals k.toValue → e'.1.toValue.equals k.toValue →
          e.1 = e'.1) →
        (h.machine p).execute fuel env =
          some ⟨item.found s' k.toValue.text
            (lastValue? (fun j => j.toValue.equals k.toValue) pairs), all', env⟩) := by
  obtain ⟨pairs, fuel, hpairs, hexecute⟩ := exists_execute_index hp hliteral hposition
  refine ⟨pairs, fuel, hpairs, hexecute, fun hkind => ?_⟩
  rwa [MapKey.lastValue?_or_equals hkind] at hexecute

/-- The entries of the literal `{1: "a", "k": "b", key: "c"}`. -/
def overwriting (key : Literal) : List (Expr × Expr) :=
  [(.literal (.int 1) ⟨1, 2⟩, .literal (.string "a") ⟨4, 7⟩),
    (.literal (.string "k") ⟨9, 12⟩, .literal (.string "b") ⟨14, 17⟩),
    (.literal key ⟨19, 20⟩, .literal (.string "c") ⟨22, 25⟩)]

/-- The program of the literal with the index `1`. -/
def indexing (key : Literal) : Program :=
  ((Expr.index (.map (overwriting key) ⟨0, 26⟩) (.literal (.int 1) ⟨27, 28⟩) ⟨0, 29⟩).assembly
    true).toProgram

/-- The keys of the literal with their values. -/
def overwritingPairs (key : MapKey) : List (MapKey × Value) :=
  [(.int 1, .string "a"), (.string "k", .string "b"), (key, .string "c")]

/-- The index `1` finds the last of two entries with the key `1`. -/
theorem exists_execute_indexing_overwritten :
    ∃ fuel, Machine.execute { registry := Standard.registry, program := indexing (.int 1) } fuel {} =
      some ⟨.ok (.string "c"), true, {}⟩ := by
  have hp : compile {} (.index (.map (overwriting (.int 1)) ⟨0, 26⟩)
      (.literal (.int 1) ⟨27, 28⟩) ⟨0, 29⟩) = .ok (indexing (.int 1)) :=
    compile_of_fits (by decide +kernel)
  have heval : evalEntries ⟨Standard.registry, none⟩ true (overwriting (.int 1)) {} true =
      .ok (inTurn (overwritingPairs (.int 1))) true := rfl
  have hliteral : (Expr.map (overwriting (.int 1)) ⟨0, 26⟩).eval ⟨Standard.registry, none⟩ true
      {} true = .ok (.map (Entries.ofPairs (overwritingPairs (.int 1)))) true := rfl
  obtain ⟨pairs, fuel, hpairs, -, hexecute⟩ := exists_execute_indexing (k := .int 1) hp hliteral rfl
  obtain rfl := inTurn_injective (EStateM.Result.ok.inj (hpairs.symm.trans heval)).1
  exact ⟨fuel, hexecute (by decide)⟩

/-- The index `1` finds the first entry of a literal whose last entry has the key `1u`, which
    equals `1`. -/
theorem execute_indexing_twinned :
    evalEntries ⟨Standard.registry, none⟩ true (overwriting (.uint 1)) {} true =
        .ok (inTurn (overwritingPairs (.uint 1))) true ∧
      (MapKey.uint 1).toValue.equals (MapKey.int 1).toValue = true ∧
      ∃ fuel, Machine.execute { registry := Standard.registry, program := indexing (.uint 1) } fuel {} =
        some ⟨.ok (.string "a"), true, {}⟩ := by
  have hp : compile {} (.index (.map (overwriting (.uint 1)) ⟨0, 26⟩)
      (.literal (.int 1) ⟨27, 28⟩) ⟨0, 29⟩) = .ok (indexing (.uint 1)) :=
    compile_of_fits (by decide +kernel)
  have heval : evalEntries ⟨Standard.registry, none⟩ true (overwriting (.uint 1)) {} true =
      .ok (inTurn (overwritingPairs (.uint 1))) true := rfl
  have hliteral : (Expr.map (overwriting (.uint 1)) ⟨0, 26⟩).eval ⟨Standard.registry, none⟩ true
      {} true = .ok (.map (Entries.ofPairs (overwritingPairs (.uint 1)))) true := rfl
  obtain ⟨pairs, fuel, hpairs, hexecute⟩ := exists_execute_index (k := .int 1) hp hliteral rfl
  obtain rfl := inTurn_injective (EStateM.Result.ok.inj (hpairs.symm.trans heval)).1
  exact ⟨heval, rfl, fuel, hexecute⟩

end Machine

end ExprMachine
