import ExprMachine.Proofs.Equality

/-!
# Normal forms of values

What the equality of the language disregards is taken away by the *normal form* of a value
(`Value.norm`):

* an integer of either kind becomes the integer that it denotes;
* a list becomes the list of the normal forms of its items;
* a map becomes a function from what its keys stand for to the normal forms of its values,
  so that the order of its entries is gone;
* any other value keeps its *shape* (`Value.shape`): all kinds in it count, and only the
  order of entries and fields is gone.

Sameness is equality of shapes (`Value.same_iff_shape_eq`), and equality in the language is
equality of normal forms (`Value.equals_iff_norm_eq`), both among *discrete* values, the
separated ones without doubles. So equality is an equivalence among them
(`Value.equals_canonical`).
-/

namespace ExprMachine

/-- What is left of a value if the order of entries and of fields does not count. -/
inductive Shape where
  /-- The value `null`. -/
  | null
  /-- A boolean. -/
  | bool (b : Bool)
  /-- A signed integer. -/
  | int (i : Int64)
  /-- An unsigned integer. -/
  | uint (u : UInt64)
  /-- A double. -/
  | double (d : Double)
  /-- A string. -/
  | string (s : String)
  /-- A byte sequence. -/
  | bytes (bs : List UInt8)
  /-- A list of shapes. -/
  | list (items : List Shape)
  /-- What a map holds at each key. -/
  | map (get? : MapKey → Option Shape)
  /-- The type of a message and what it holds in each field. -/
  | message (typeName : String) (get? : String → Option Shape)

/-- What is left of a value in the eyes of the equality of the language. -/
inductive NormalValue where
  /-- An integer of either kind. -/
  | integer (i : Int)
  /-- A list of normal forms. -/
  | list (items : List NormalValue)
  /-- What a map holds at whatever a key stands for. -/
  | map (get? : NormalKey → Option NormalValue)
  /-- A value of another kind, of which the shape counts. -/
  | kept (shape : Shape)

namespace Value

/-! ## Shapes -/

mutual

/-- The shape of a value. -/
def shape : Value → Shape
  | .null => .null
  | .bool b => .bool b
  | .int i => .int i
  | .uint u => .uint u
  | .double d => .double d
  | .string s => .string s
  | .bytes bs => .bytes bs
  | .list items => .list (shapeOfItems items)
  | .map entries => .map (shapeOfEntries entries).get?
  | .message typeName fields => .message typeName (shapeOfFields fields).get?

/-- The shapes of the items of a list. -/
def shapeOfItems : List Value → List Shape
  | [] => []
  | v :: rest => shape v :: shapeOfItems rest

/-- The entries of a map with the shapes of its values. -/
def shapeOfEntries : List (MapKey × Value) → Entries MapKey Shape
  | [] => []
  | (k, v) :: rest => (k, shape v) :: shapeOfEntries rest

/-- The fields of a message with the shapes of its values. -/
def shapeOfFields : List (String × Value) → Entries String Shape
  | [] => []
  | (f, v) :: rest => (f, shape v) :: shapeOfFields rest

end

theorem shapeOfItems_eq (items : List Value) : shapeOfItems items = items.map shape := by
  induction items with
  | nil => rfl
  | cons v rest ih => rw [shapeOfItems, ih, List.map_cons]

theorem shapeOfEntries_eq (entries : Entries MapKey Value) :
    shapeOfEntries entries = entries.view id shape := by
  induction entries with
  | nil => rfl
  | cons e rest ih => exact congrArg _ ih

theorem shapeOfFields_eq (fields : Entries String Value) :
    shapeOfFields fields = fields.view id shape := by
  induction fields with
  | nil => rfl
  | cons e rest ih => exact congrArg _ ih

/-! ## Normal forms -/

mutual

/-- The normal form of a value. -/
def norm : Value → NormalValue
  | .int i => .integer i.toInt
  | .uint u => .integer u.toNat
  | .list items => .list (normOfItems items)
  | .map entries => .map (normOfEntries entries).get?
  | v => .kept v.shape

/-- The normal forms of the items of a list. -/
def normOfItems : List Value → List NormalValue
  | [] => []
  | v :: rest => norm v :: normOfItems rest

/-- The entries of a map with what its keys stand for and the normal forms of its values. -/
def normOfEntries : List (MapKey × Value) → Entries NormalKey NormalValue
  | [] => []
  | (k, v) :: rest => (k.norm, norm v) :: normOfEntries rest

end

theorem normOfItems_eq (items : List Value) : normOfItems items = items.map norm := by
  induction items with
  | nil => rfl
  | cons v rest ih => rw [normOfItems, ih, List.map_cons]

theorem normOfEntries_eq (entries : Entries MapKey Value) :
    normOfEntries entries = entries.view MapKey.norm norm := by
  induction entries with
  | nil => rfl
  | cons e rest ih => exact congrArg _ ih

/-! ## Discrete values -/

/-- Whether a value is not a double itself. -/
def isNoDouble : Value → Bool
  | .double _ => false
  | _ => true

/-- The separated values without doubles. -/
structure Discrete (v : Value) : Prop extends Separated v where
  /-- There is no double in the value. -/
  undoubled : v.everywhere isNoDouble

variable {a b v w : Value} {as bs : List Value}

theorem Discrete.part (h : v.Discrete) (hw : w ∈ v.parts) : w.Discrete :=
  ⟨h.toSeparated.part hw, (everywhere_iff.1 h.undoubled).2 w hw⟩

theorem Discrete.ne_double (h : v.Discrete) (d : Double) : v ≠ .double d := by
  rintro rfl
  cases (everywhere_iff.1 h.undoubled).1

/-! ## Sameness and equality by normal forms -/

/-- If items are related just where they are taken for the same, two lists are related item
    by item just where they are taken for one list. -/
theorem forall₂_iff_map_eq {α β : Type} {R : α → α → Prop} {g : α → β} {as bs : List α}
    (h : ∀ v ∈ as, ∀ w ∈ bs, R v w ↔ g v = g w) :
    List.Forall₂ R as bs ↔ as.map g = bs.map g := by
  induction as generalizing bs with
  | nil => cases bs <;> simp
  | cons v as ih =>
    cases bs with
    | nil => simp
    | cons w bs =>
      have hhead := h v List.mem_cons_self w List.mem_cons_self
      have htail := ih fun v hv w hw =>
        h v (List.mem_cons_of_mem _ hv) w (List.mem_cons_of_mem _ hw)
      rw [List.forall₂_cons, List.map_cons, List.map_cons, List.cons.injEq, hhead, htail]

theorem sameEntries_iff_covers {as bs : Entries MapKey Value} (hnodup : bs.keys.Nodup) :
    sameEntries as bs ↔ Entries.Covers id (fun v w => v.same w) as bs :=
  ⟨fun h => Entries.covers_of_forall_get? (R := (same · ·)) (sameEntries_iff.1 h),
    fun h => sameEntries_iff.2 (h.forall_get? hnodup)⟩

theorem sameFields_iff_covers {as bs : Entries String Value} (hnodup : bs.keys.Nodup) :
    sameFields as bs ↔ Entries.Covers id (fun v w => v.same w) as bs :=
  ⟨fun h => Entries.covers_of_forall_get? (R := (same · ·)) (sameFields_iff.1 h),
    fun h => sameFields_iff.2 (h.forall_get? hnodup)⟩

/-- Discrete values are the same just if they have one shape. -/
theorem same_iff_shape_eq {a b : Value} (ha : a.Discrete) (hb : b.Discrete) :
    a.same b ↔ a.shape = b.shape := by
  induction a using induct generalizing b with
  | step a ih =>
    have ih : ∀ v ∈ a.parts, ∀ w ∈ b.parts, v.same w ↔ v.shape = w.shape := fun v hv w hw =>
      ih v hv (ha.part hv) (hb.part hw)
    cases a with
    | list as =>
      cases b with
      | list bs =>
        rw [same, sameItems_iff, shape, shape, Shape.list.injEq, shapeOfItems_eq, shapeOfItems_eq]
        exact forall₂_iff_map_eq ih
      | _ => simp [same, shape]
    | map as =>
      cases b with
      | map bs =>
        have has := nodup_keys_of_map ha.distinct
        have hbs := nodup_keys_of_map hb.distinct
        rw [same, Bool.and_eq_true, beq_iff_eq, sameEntries_iff_covers hbs, shape, shape,
          Shape.map.injEq, shapeOfEntries_eq, shapeOfEntries_eq]
        exact Entries.covers_iff_get?_view (by rwa [List.map_id]) (by rwa [List.map_id])
          fun e he e' he' => ih _ (List.mem_map_of_mem he) _ (List.mem_map_of_mem he')
      | _ => simp [same, shape]
    | message s as =>
      cases b with
      | message t bs =>
        have has := nodup_keys_of_message ha.distinct
        have hbs := nodup_keys_of_message hb.distinct
        rw [same, Bool.and_eq_true, Bool.and_eq_true, beq_iff_eq, beq_iff_eq, and_assoc,
          sameFields_iff_covers hbs, shape, shape, Shape.message.injEq, shapeOfFields_eq,
          shapeOfFields_eq]
        refine and_congr_right fun _ => ?_
        exact Entries.covers_iff_get?_view (by rwa [List.map_id]) (by rwa [List.map_id])
          fun e he e' he' => ih _ (List.mem_map_of_mem he) _ (List.mem_map_of_mem he')
      | _ => simp [same, shape]
    | double d => exact absurd rfl (ha.ne_double d)
    | null | bool | int | uint | string | bytes => cases b <;> simp [same, shape]

/-- A value of a strict kind has the normal form of another one just if they have one
    shape. -/
theorem norm_eq_iff_shape_eq (ha : a.kind.isStrict) : a.norm = b.norm ↔ a.shape = b.shape := by
  have hnorm : a.norm = .kept a.shape := by
    cases a with
    | null | bool | string | bytes | message => rfl
    | int | uint | double | list | map => cases ha
  rw [hnorm]
  cases b with
  | null | bool | double | string | bytes | message => simp [norm]
  | int | uint | list | map =>
    cases a with
    | null | bool | string | bytes | message => simp [norm, shape]
    | int | uint | double | list | map => cases ha

/-- A value that is an integer equals what has the normal form of that integer. -/
theorem equals_integer_iff {i : Int} (hb : b.Discrete) (ha : a.number? = some (.integer i)) :
    a.equals b ↔ .integer i = b.norm := by
  cases b with
  | int | uint =>
    rw [equals_of_number ha rfl, norm, NormalValue.integer.injEq, Number.compare, beq_iff_eq,
      Option.some.injEq, Std.LawfulEqCmp.compare_eq_iff_eq]
  | double d => exact absurd rfl (hb.ne_double d)
  | null | bool | string | bytes | list | map | message =>
    refine ⟨fun h => ?_, fun h => by cases h⟩
    obtain ⟨y, hy⟩ := exists_number_of_equals ha h
    cases hy

/-- Discrete values are equal just if they have one normal form. -/
theorem equals_iff_norm_eq {a b : Value} (ha : a.Discrete) (hb : b.Discrete) :
    a.equals b ↔ a.norm = b.norm := by
  induction a using induct generalizing b with
  | step a ih =>
    have ih : ∀ v ∈ a.parts, ∀ w ∈ b.parts, v.equals w ↔ v.norm = w.norm := fun v hv w hw =>
      ih v hv (ha.part hv) (hb.part hw)
    -- Values of strict kinds are equal if they are the same, and have a shape for a normal form.
    by_cases hstrict : a.kind.isStrict
    · rw [(equals_eq_same hstrict).1, same_iff_shape_eq ha hb, norm_eq_iff_shape_eq hstrict]
    · cases a with
      | list as =>
        cases b with
        | list bs =>
          rw [equals, equalItems_iff, norm, norm, NormalValue.list.injEq, normOfItems_eq,
            normOfItems_eq]
          exact forall₂_iff_map_eq ih
        | _ => simp [equals, kind, Kind.isNumeric, same, norm]
      | map as =>
        cases b with
        | map bs =>
          have hcovers : equalEntries as bs ↔
              Entries.Covers MapKey.norm (fun v w => v.equals w) as bs :=
            ⟨covers_of_equalEntries, equalEntries_of_covers hb.nodup_norm⟩
          rw [equals, Bool.and_eq_true, beq_iff_eq, hcovers, norm, norm, NormalValue.map.injEq,
            normOfEntries_eq, normOfEntries_eq]
          exact Entries.covers_iff_get?_view ha.nodup_norm hb.nodup_norm fun e he e' he' =>
            ih _ (List.mem_map_of_mem he) _ (List.mem_map_of_mem he')
        | _ => simp [equals, kind, Kind.isNumeric, same, norm]
      | int | uint => exact equals_integer_iff hb rfl
      | double d => exact absurd rfl (ha.ne_double d)
      | null | bool | string | bytes | message => exact absurd rfl hstrict

/-- Among discrete values, equality is equality of normal forms, and an equivalence. -/
theorem equals_canonical :
    (∀ {a b : Value}, a.Discrete → b.Discrete → (a.equals b ↔ a.norm = b.norm)) ∧
      Equivalence fun a b : {v : Value // v.Discrete} => (a : Value).equals b := by
  refine ⟨equals_iff_norm_eq, fun a => ?_, @fun a b hab => ?_, @fun a b c hab hbc => ?_⟩
  · exact (equals_iff_norm_eq a.2 a.2).2 rfl
  · exact (equals_iff_norm_eq b.2 a.2).2 ((equals_iff_norm_eq a.2 b.2).1 hab).symm
  · have hab := (equals_iff_norm_eq a.2 b.2).1 hab
    have hbc := (equals_iff_norm_eq b.2 c.2).1 hbc
    exact (equals_iff_norm_eq a.2 c.2).2 (hab.trans hbc)

/-- A map that holds a list under an integer, and a message that holds one. -/
def signedRecord : Value :=
  .map [(.int 1, .list [.uint 2, .int (-3)]), (.string "m", .message "T" [("f", .int 1)])]

/-- The same record in another order and with integers of the other kind, except for the
    one in the message. -/
def unsignedRecord : Value :=
  .map [(.string "m", .message "T" [("f", .int 1)]), (.uint 1, .list [.int 2, .int (-3)])]

/-- The same record with an integer of the other kind in the message. -/
def recastRecord : Value :=
  .map [(.int 1, .list [.uint 2, .int (-3)]), (.string "m", .message "T" [("f", .uint 1)])]

/-- Kinds of integers do not count, except within messages. -/
theorem equals_canonical_record :
    signedRecord.norm = unsignedRecord.norm ∧ signedRecord.norm ≠ recastRecord.norm := by
  have hsigned : signedRecord.Discrete := ⟨⟨by decide, by decide⟩, by decide⟩
  have hunsigned : unsignedRecord.Discrete := ⟨⟨by decide, by decide⟩, by decide⟩
  have hrecast : recastRecord.Discrete := ⟨⟨by decide, by decide⟩, by decide⟩
  refine ⟨(equals_canonical.1 hsigned hunsigned).1 (by decide), fun h => ?_⟩
  exact absurd ((equals_canonical.1 hsigned hrecast).2 h) (by decide)

end Value

end ExprMachine
