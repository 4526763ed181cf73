import ExprMachine.Proofs.MapLiterals

/-!
# Making maps

A record that makes a map finds keys and values in turn in consecutive registers. The first
key that is neither an integer nor a string fails the record, whatever comes after it
(`Value.addEntries_flatMap`). If there is none, the pairs are inserted one after another:

* the map has its keys in the order in which they come first, each of them once
  (`Entries.keys_ofPairs`);
* each key has the value that comes with it last (`Entries.get?_ofPairs`).

Keys of different kinds are different keys here, also if they are the same integer.
-/

namespace ExprMachine

namespace Entries

variable {κ α : Type} [DecidableEq κ]

/-- Insertions append the keys that are new, each where it comes first. -/
theorem keys_foldl_insert (t : Entries κ α) (pairs : List (κ × α)) :
    (pairs.foldl (fun t e => t.insert e.1 e.2) t).keys =
      t.keys ++ ((pairs.map Prod.fst).filter (· ∉ t.keys)).eraseDups := by
  induction pairs generalizing t with
  | nil => exact (List.append_nil _).symm
  | cons e rest ih =>
    rw [List.foldl_cons, ih, List.map_cons]
    by_cases he : e.1 ∈ t.keys
    · rw [keys_insert_of_mem t _ _ he, List.filter_cons_of_neg (by simpa using he)]
    · -- The new key is at the end now, and no later one is appended again.
      have hrest : (rest.map Prod.fst).filter (· ∉ t.keys ++ [e.1]) =
          ((rest.map Prod.fst).filter (· ∉ t.keys)).filter (fun k => !k == e.1) := by
        rw [List.filter_filter]
        refine List.filter_congr fun k _ => ?_
        rw [Bool.eq_iff_iff]
        simp [and_comm]
      rw [keys_insert_of_not_mem t _ _ he, List.filter_cons_of_pos (by simpa using he),
        List.eraseDups_cons, hrest, List.append_assoc, List.singleton_append]

/-- A table that holds some pairs has their keys, without the later of equal ones. -/
theorem keys_ofPairs (pairs : List (κ × α)) :
    (ofPairs pairs).keys = (pairs.map Prod.fst).eraseDups := by
  rw [ofPairs, keys_foldl_insert]
  simp [keys]

theorem nodup_keys_ofPairs (pairs : List (κ × α)) : (ofPairs pairs).keys.Nodup := by
  have hfold (t : Entries κ α) (ht : t.keys.Nodup) :
      (pairs.foldl (fun t e => t.insert e.1 e.2) t).keys.Nodup := by
    induction pairs generalizing t with
    | nil => exact ht
    | cons e rest ih => exact ih _ (nodup_keys_insert t _ _ ht)
  exact hfold [] List.nodup_nil

end Entries

/-! ## Keys among values -/

/-- Whether the values of a kind can be keys of maps. -/
def Kind.isKey : Kind → Bool
  | .int | .uint | .string => true
  | _ => false

namespace MapKey

theorem isSome_ofValue? (v : Value) : (ofValue? v).isSome = v.kind.isKey := by
  cases v <;> rfl

/-- The pairs of values whose first one can be a key, as keys with values. -/
def keyed (pairs : List (Value × Value)) : List (MapKey × Value) :=
  pairs.filterMap fun p => (ofValue? p.1).map fun k => (k, p.2)

theorem map_fst_keyed (pairs : List (Value × Value)) :
    (keyed pairs).map Prod.fst = pairs.filterMap fun p => ofValue? p.1 := by
  rw [keyed, List.map_filterMap]
  refine List.filterMap_congr fun p _ => ?_
  rw [Option.map_map]
  exact Option.map_id'

open Entries in
theorem lastValue?_keyed (pairs : List (Value × Value)) (k : MapKey) :
    lastValue? (fun j => j = k) (keyed pairs) =
      lastValue? (fun v => ofValue? v = some k) pairs := by
  induction pairs with
  | nil => rfl
  | cons p rest ih =>
    rw [lastValue?_cons, ← ih, keyed, List.filterMap_cons, ← keyed]
    cases hp : ofValue? p.1 with
    | none => simp
    | some j => simp [lastValue?_cons]

end MapKey

/-- Building a map from keys and values in turn inserts them one after another, or fails at
    the first key that is of no kind of keys. -/
theorem Value.addEntries_flatMap (built : Entries MapKey Value) (span : Span)
    (pairs : List (Value × Value)) :
    addEntries built span (pairs.flatMap fun p => [p.1, p.2]) =
      match pairs.find? fun p => !p.1.kind.isKey with
      | some p => .error ⟨span, .mapKeyKind p.1.kind⟩
      | none => .ok ((MapKey.keyed pairs).foldl (fun t e => t.insert e.1 e.2) built) := by
  induction pairs generalizing built with
  | nil => rfl
  | cons p rest ih =>
    have hkey := MapKey.isSome_ofValue? p.1
    rw [List.flatMap_cons, List.find?_cons, MapKey.keyed, List.filterMap_cons, ← MapKey.keyed,
      ← hkey, List.cons_append, List.cons_append, List.nil_append, addEntries]
    cases MapKey.ofValue? p.1 with
    | none => rfl
    | some k => exact ih (built.insert k p.2)

/-! ## The record -/

/-- The registers from a number on hold some values, one after another. -/
def State.HoldsRun (s : State) (first : Nat) (vs : List Value) : Prop :=
  ∀ j v, vs[j]? = some v → s.registers[first + j]? = some (some v)

theorem State.HoldsRun.length_le {s : State} {first : Nat} {vs : List Value}
    (h : s.HoldsRun first vs) : first + vs.length ≤ max first s.registers.size := by
  rcases Nat.eq_zero_or_pos vs.length with hzero | hpos
  · omega
  · have hread := h _ _ (List.getElem?_eq_getElem (Nat.sub_one_lt_of_lt hpos))
    have hlt := (Array.getElem?_eq_some_iff.1 hread).1
    omega

theorem State.HoldsRun.read? {s : State} {first : Nat} {vs : List Value}
    (h : s.HoldsRun first vs) (hsize : s.registers.size < UInt32.size) (j : Nat) (v : Value)
    (hv : vs[j]? = some v) : s.read? (UInt32.ofNat (first + j)) = some v := by
  have hj := h j v hv
  have hlt := (Array.getElem?_eq_some_iff.1 hj).1
  rw [State.read?, UInt32.toNat_ofNat_of_lt' (by omega), hj, Option.join_some]

namespace Machine

variable {m : Machine} {s : State} {dst a b c k : UInt32} {span : Span}
  {pairs : List (Value × Value)}

/-- A record that makes a map of keys and values in its registers fails exactly if one of the
    keys is neither an integer nor a string, with the kind of the first such key. Otherwise the
    map has the keys without repetitions, in the order in which they come first, and at each
    of them the value that comes with it last. -/
theorem step_makeMap (h : m.At s ⟨.makeMap, dst, a, b, c, k⟩ span)
    (hregisters : s.registers.size = m.program.registers.toNat)
    (hdst : dst.toNat < s.registers.size) (hcount : b.toNat = pairs.length)
    (hrun : s.HoldsRun a.toNat (pairs.flatMap fun p => [p.1, p.2])) :
    ∃ t : Entries MapKey Value,
      (m.step s =
        match pairs.find? fun p => !p.1.kind.isKey with
        | some p => .error ⟨span, .mapKeyKind p.1.kind⟩ s.advance
        | none => .ok none (s.advance.set dst (.map t))) ∧
      t.keys = (pairs.filterMap fun p => MapKey.ofValue? p.1).eraseDups ∧ t.keys.Nodup ∧
      ∀ key, t.get? key = Entries.lastValue? (fun v => MapKey.ofValue? v = some key) pairs := by
  have hsize : s.registers.size < UInt32.size := hregisters ▸ m.program.registers.toNat_lt_size
  have hlength : 2 * b.toNat = (pairs.flatMap fun p => [p.1, p.2]).length := by
    rw [hcount, length_flatMap_pair]
  have hlast := hrun.length_le
  have hfirst := a.toNat_lt_size
  -- The registers hold keys and values in turn, which are walked through pair by pair.
  have hputs := h.makeMap hdst hlength (by omega) (by omega) (hrun.read? hsize)
  unfold Puts at hputs
  rw [Value.addEntries_flatMap] at hputs
  refine ⟨Entries.ofPairs (MapKey.keyed pairs), ?_, ?_, Entries.nodup_keys_ofPairs _, fun key => ?_⟩
  · rw [hputs]
    cases pairs.find? fun p => !p.1.kind.isKey <;> rfl
  · rw [Entries.keys_ofPairs, MapKey.map_fst_keyed]
  · rw [Entries.get?_ofPairs, MapKey.lastValue?_keyed]

/-- A machine that makes a map of three pairs. -/
def mapMaker : Machine where
  registry := RegistryBuilder.empty.build
  program :=
    { code := (Instruction.encode ⟨.makeMap, 6, 0, 3, 0, 0⟩).toArray
      spans := #[⟨0, 9⟩]
      registers := 7 }

/-- The state before the map is made, with the pairs in the registers. -/
def mapMakerState (pairs : List (Value × Value)) : State :=
  { State.start mapMaker.program {} with
    registers := ((pairs.flatMap fun p : Value × Value => [p.1, p.2]).map some ++ [none]).toArray }

/-- Pairs with a key that is repeated, also under its other kind. -/
def repeatedKey : List (Value × Value) :=
  [(.int 1, .string "a"), (.uint 1, .null), (.int 1, .string "b")]

/-- Pairs with two keys that no map can have. -/
def improperKeys : List (Value × Value) :=
  [(.string "k", .string "a"), (.null, .null), (.bool true, .string "b")]

/-- The repeated key keeps its place and has the last value, and of the improper keys the first
    one is reported. -/
theorem step_makeMap_repeatedKey :
    (∃ t : Entries MapKey Value,
      mapMaker.step (mapMakerState repeatedKey) =
          .ok none ((mapMakerState repeatedKey).advance.set 6 (.map t)) ∧
        t.keys = [.int 1, .uint 1] ∧ t.get? (.int 1) = some (.string "b")) ∧
      mapMaker.step (mapMakerState improperKeys) =
        .error ⟨⟨0, 9⟩, .mapKeyKind .null⟩ (mapMakerState improperKeys).advance := by
  have hat (pairs : List (Value × Value)) :
      mapMaker.At (mapMakerState pairs) ⟨.makeMap, 6, 0, 3, 0, 0⟩ ⟨0, 9⟩ := ⟨rfl, rfl⟩
  have hrun (pairs : List (Value × Value)) :
      (mapMakerState pairs).HoldsRun 0 (pairs.flatMap fun p => [p.1, p.2]) := by
    intro j v hv
    have hj := (List.getElem?_eq_some_iff.1 hv).1
    rw [Nat.zero_add, mapMakerState, List.getElem?_toArray,
      List.getElem?_append_left (by rwa [List.length_map]), List.getElem?_map, hv, Option.map_some]
  obtain ⟨t, hstep, hkeys, -, hget⟩ :=
    step_makeMap (hat repeatedKey) rfl (by decide) rfl (hrun _)
  obtain ⟨_, hfail, -⟩ := step_makeMap (hat improperKeys) rfl (by decide) rfl (hrun _)
  exact ⟨⟨t, hstep, hkeys.trans (by decide), hget (.int 1)⟩, hfail⟩

end Machine

end ExprMachine
