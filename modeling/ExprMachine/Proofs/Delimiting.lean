import Mathlib.Tactic.Common
import ExprMachine.Program.Fingerprint

/-!
# Encodings that delimit themselves

Different programs are written as different bytes (`Program.encoding_injective`). All
that a program is made of is written so that it can be told from the bytes where it ends,
whatever follows (`Delimited`):

* numbers, which take a fixed number of bytes;
* sequences, whose items are counted before they are written, if the items delimit
  themselves (`delimited_sequence`);
* values, which begin with the index of their kind, so that values of different kinds
  differ in the first byte (`Value.kind_eq_of_encoding`). For the values inside lists,
  maps and messages this is an induction on the value (`Value.Fits.delimited`).

Lengths and offsets are written as numbers of 64 bits, so all of this is said of programs
whose lengths and offsets are such numbers (`Program.Fits`).
-/

namespace ExprMachine

open Digest

/-! ## Sequences of bytes -/

/-- No item with `P` but `x` itself is written in a way that can be taken for `x`: from
    bytes that begin with `x`, it is told what they begin with and what follows. -/
def Delimited {α : Type} (P : α → Prop) (write : α → List UInt8) (x : α) : Prop :=
  ∀ y rest rest', P y → write x ++ rest = write y ++ rest' → x = y ∧ rest = rest'

section

variable {α β : Type} {P : α → Prop} {Q : β → Prop} {write : α → List UInt8}
  {write' : β → List UInt8} {x y : α}

theorem Delimited.eq (hx : Delimited P write x) (hy : P y) (h : write x = write y) : x = y :=
  (hx y [] [] hy (congrArg (· ++ []) h)).1

/-- What is written with a fixed number of bytes ends after that number. -/
theorem delimited_of_length {count : Nat} (hlength : ∀ y, (write y).length = count)
    (hinj : ∀ y, P y → write x = write y → x = y) : Delimited P write x := by
  intro y rest rest' hy h
  obtain ⟨hxy, hrest⟩ := List.append_inj h ((hlength x).trans (hlength y).symm)
  exact ⟨hinj y hy hxy, hrest⟩

/-- Two things that are written one after the other. -/
theorem Delimited.pair {z : β} (hx : Delimited P write x) (hz : Delimited Q write' z) :
    Delimited (fun p : α × β => P p.1 ∧ Q p.2) (fun p => write p.1 ++ write' p.2) (x, z) := by
  rintro ⟨y, w⟩ rest rest' ⟨hy, hw⟩ h
  rw [List.append_assoc, List.append_assoc] at h
  obtain ⟨rfl, hsecond⟩ := hx y _ _ hy h
  obtain ⟨rfl, hrest⟩ := hz w _ _ hw hsecond
  exact ⟨rfl, hrest⟩

end

/-! ## Numbers -/

/-- The numbers of 64 bits are those below the limit. -/
def numberLimit : Nat := UInt64.size

theorem littleEndian_inj {count m n : Nat} (hm : m < 1 <<< (8 * count))
    (hn : n < 1 <<< (8 * count)) (h : littleEndian count m = littleEndian count n) : m = n := by
  have hnumber := congrArg number h
  rwa [number_littleEndian, number_littleEndian, Nat.mod_eq_of_lt hm, Nat.mod_eq_of_lt hn]
    at hnumber

theorem delimited_word (w : UInt32) : Delimited (fun _ => True) wordBytes w :=
  delimited_of_length (fun y => length_littleEndian 4 y.toNat) fun y _ h =>
    UInt32.toNat_inj.1 (littleEndian_inj w.toNat_lt_size y.toNat_lt_size h)

theorem delimited_length {n : Nat} (hn : n < numberLimit) :
    Delimited (· < numberLimit) lengthBytes n :=
  delimited_of_length (length_littleEndian 8) fun _ hm h => littleEndian_inj hn hm h

/-! ## Sequences -/

theorem delimited_blob {bs : List UInt8} (hbs : bs.length < numberLimit) :
    Delimited (·.length < numberLimit) blobBytes bs := by
  intro cs rest rest' hcs h
  rw [blobBytes, blobBytes, List.append_assoc, List.append_assoc] at h
  obtain ⟨hlength, h⟩ := delimited_length hbs _ _ _ hcs h
  exact List.append_inj h hlength

/-- A text whose length in bytes is a number of 64 bits. -/
def TextFits (s : String) : Prop := s.utf8ByteSize < numberLimit

instance : DecidablePred TextFits := fun s =>
  inferInstanceAs (Decidable (s.utf8ByteSize < numberLimit))

theorem delimited_text {s : String} (hs : TextFits s) : Delimited TextFits textBytes s := by
  have hlength {s : String} (hs : TextFits s) : s.toUTF8.data.toList.length < numberLimit := by
    rw [Array.length_toList]
    exact hs
  intro s' rest rest' hs' h
  obtain ⟨hbytes, hrest⟩ := delimited_blob (hlength hs) _ _ _ (hlength hs') h
  exact ⟨String.toByteArray_inj.1 (ByteArray.ext (Array.toList_inj.1 hbytes)), hrest⟩

/-- A sequence of items with `P` whose length is a number of 64 bits. -/
structure SequenceFits {α : Type} (P : α → Prop) (items : List α) : Prop where
  /-- The length is a number of 64 bits. -/
  length_lt : items.length < numberLimit
  /-- The items have `P`. -/
  all : ∀ x ∈ items, P x

section

variable {α : Type} {P : α → Prop} {write : α → List UInt8} {xs ys : List α} {rest rest' : List UInt8}

/-- Items that delimit themselves are told apart, if it is known how many there are. -/
theorem flatMap_append_inj (hxs : ∀ x ∈ xs, Delimited P write x) (hys : ∀ y ∈ ys, P y)
    (hlength : xs.length = ys.length) (h : xs.flatMap write ++ rest = ys.flatMap write ++ rest') :
    xs = ys ∧ rest = rest' := by
  induction xs generalizing ys with
  | nil =>
    obtain rfl := List.length_eq_zero_iff.1 hlength.symm
    exact ⟨rfl, h⟩
  | cons x xs ih =>
    cases ys with
    | nil => cases hlength
    | cons y ys =>
      rw [List.flatMap_cons, List.flatMap_cons, List.append_assoc, List.append_assoc] at h
      obtain ⟨rfl, htail⟩ := hxs x List.mem_cons_self y _ _ (hys y List.mem_cons_self) h
      obtain ⟨rfl, hrest⟩ := ih (fun z hz => hxs z (List.mem_cons_of_mem _ hz))
        (fun z hz => hys z (List.mem_cons_of_mem _ hz)) (Nat.succ.inj hlength) htail
      exact ⟨rfl, hrest⟩

/-- A sequence delimits itself if its items do: it says how many there are. -/
theorem delimited_sequence (hlength : xs.length < numberLimit)
    (hxs : ∀ x ∈ xs, Delimited P write x) :
    Delimited (SequenceFits P) (sequenceBytes write) xs := by
  intro ys rest rest' hys h
  rw [sequenceBytes, sequenceBytes, List.append_assoc, List.append_assoc] at h
  obtain ⟨hcount, h⟩ := delimited_length hlength _ _ _ hys.length_lt h
  exact flatMap_append_inj hxs hys.all hcount h

theorem SequenceFits.delimited (hitems : ∀ x, P x → Delimited P write x) (hxs : SequenceFits P xs) :
    Delimited (SequenceFits P) (sequenceBytes write) xs :=
  delimited_sequence hxs.length_lt fun x hx => hitems x (hxs.all x hx)

end

/-! ## Values -/

namespace Value

/-- The values whose lengths are numbers of 64 bits. -/
inductive Fits : Value → Prop where
  | null : Fits .null
  | bool (b : Bool) : Fits (.bool b)
  | int (i : Int64) : Fits (.int i)
  | uint (u : UInt64) : Fits (.uint u)
  | double (d : Double) : Fits (.double d)
  | string {s : String} (hs : TextFits s) : Fits (.string s)
  | bytes {bs : List UInt8} (hbs : bs.length < numberLimit) : Fits (.bytes bs)
  | list {items : List Value} (hlength : items.length < numberLimit)
      (hitems : ∀ v ∈ items, Fits v) : Fits (.list items)
  | map {entries : List (MapKey × Value)} (hlength : entries.length < numberLimit)
      (hkeys : ∀ e ∈ entries, Fits e.1.toValue) (hvalues : ∀ e ∈ entries, Fits e.2) :
      Fits (.map entries)
  | message {typeName : String} {fields : List (String × Value)} (hname : TextFits typeName)
      (hlength : fields.length < numberLimit) (hnames : ∀ f ∈ fields, TextFits f.1)
      (hvalues : ∀ f ∈ fields, Fits f.2) : Fits (.message typeName fields)

/-! ### Parts -/

theorem encoding_list (items : List Value) :
    (Value.list items).encoding = kindByte .list ++ sequenceBytes encoding items := by
  have hitems (items : List Value) : itemsEncoding items = items.flatMap encoding := by
    induction items with
    | nil => rfl
    | cons v rest ih => rw [itemsEncoding, ih, List.flatMap_cons]
  rw [encoding, hitems, sequenceBytes, List.append_assoc]

theorem encoding_map (entries : List (MapKey × Value)) :
    (Value.map entries).encoding = kindByte .map ++
      sequenceBytes (fun e => e.1.encoding ++ e.2.encoding) entries := by
  have hentries (entries : List (MapKey × Value)) : entriesEncoding entries =
      entries.flatMap fun e => e.1.encoding ++ e.2.encoding := by
    induction entries with
    | nil => rfl
    | cons e rest ih => rw [entriesEncoding, ih, List.flatMap_cons]
  rw [encoding, hentries, sequenceBytes, List.append_assoc]

theorem encoding_message (typeName : String) (fields : List (String × Value)) :
    (Value.message typeName fields).encoding = kindByte .message ++
      (textBytes typeName ++ sequenceBytes (fun f => textBytes f.1 ++ f.2.encoding) fields) := by
  have hfields (fields : List (String × Value)) : fieldsEncoding fields =
      fields.flatMap fun f => textBytes f.1 ++ f.2.encoding := by
    induction fields with
    | nil => rfl
    | cons f rest ih => rw [fieldsEncoding, ih, List.flatMap_cons]
  rw [encoding, hfields, sequenceBytes, List.append_assoc, List.append_assoc]

/-! ### Kinds -/

/-- The first byte of a value tells its kind. -/
theorem kind_eq_of_encoding {v w : Value} {rest rest' : List UInt8}
    (h : v.encoding ++ rest = w.encoding ++ rest') : v.kind = w.kind := by
  have hfirst (v : Value) : ∃ content, v.encoding = UInt8.ofNat v.kind.index :: content := by
    cases v <;> exact ⟨_, rfl⟩
  have hindex : ∀ k k' : Kind, UInt8.ofNat k.index = UInt8.ofNat k'.index → k = k' := by
    intro k k' hk
    cases k <;> cases k' <;> first | rfl | exact absurd hk (by decide)
  obtain ⟨content, hv⟩ := hfirst v
  obtain ⟨content', hw⟩ := hfirst w
  rw [hv, hw] at h
  exact hindex _ _ (List.cons.inj h).1

/-- A value delimits itself if what stands behind its kind does. -/
theorem delimited_of_content {α : Type} {P : α → Prop} {write : α → List UInt8} {x : α}
    (k : Kind) (ofContent : α → Value) (hx : Delimited P write x)
    (hencoding : ∀ a, (ofContent a).encoding = kindByte k ++ write a)
    (hkind : ∀ a, (ofContent a).kind = k)
    (hfits : ∀ w : Value, w.Fits → w.kind = k → ∃ a, ofContent a = w ∧ P a) :
    Delimited Fits encoding (ofContent x) := by
  intro w rest rest' hw h
  obtain ⟨a, rfl, ha⟩ := hfits w hw ((kind_eq_of_encoding h).symm.trans (hkind x))
  rw [hencoding, hencoding, List.append_assoc, List.append_assoc] at h
  obtain ⟨rfl, hrest⟩ := hx a _ _ ha (List.append_cancel_left h)
  exact ⟨rfl, hrest⟩

/-! ### Induction -/

theorem delimited_number {α : Type} {bits : α → UInt64} (hbits : Function.Injective bits) (x : α) :
    Delimited (fun _ => True) (fun x => lengthBytes (bits x).toNat) x :=
  delimited_of_length (fun y => length_littleEndian 8 (bits y).toNat) fun y _ h =>
    hbits (UInt64.toNat_inj.1 (littleEndian_inj (bits x).toNat_lt_size (bits y).toNat_lt_size h))

/-- A key is written like the value that it stands for. -/
theorem delimited_key {k : MapKey} (hk : Delimited Fits encoding k.toValue) :
    Delimited (fun k => k.toValue.Fits) MapKey.encoding k := by
  intro j rest rest' hj h
  rw [← encoding_toValue, ← encoding_toValue] at h
  obtain ⟨hvalue, hrest⟩ := hk j.toValue _ _ hj h
  have hkey := congrArg MapKey.ofValue? hvalue
  rw [MapKey.ofValue?_toValue, MapKey.ofValue?_toValue] at hkey
  exact ⟨Option.some.inj hkey, hrest⟩

/-- A value is told from what is written of it. -/
theorem Fits.delimited {v : Value} (hv : v.Fits) : Delimited Fits encoding v := by
  -- The first byte tells the kind. So for each kind, it is left to show that the content delimits
  -- itself, and that every value of the kind has a content of that form.
  induction hv with
  | null =>
    have hcontent : Delimited (fun _ => True) (fun _ => []) () :=
      delimited_of_length (fun _ => rfl) fun _ _ _ => rfl
    refine delimited_of_content .null (fun _ => .null) hcontent (fun _ => rfl) (fun _ => rfl)
      fun w hw hk => ?_
    cases hw with
    | null => exact ⟨(), rfl, trivial⟩
    | _ => cases hk
  | bool b =>
    have hcontent : Delimited (fun _ => True) (fun b : Bool => [if b then 1 else 0]) b :=
      delimited_of_length (fun _ => rfl) fun b' _ h => by revert h; cases b <;> cases b' <;> decide
    refine delimited_of_content .bool .bool hcontent (fun _ => rfl) (fun _ => rfl) fun w hw hk => ?_
    cases hw with
    | bool b => exact ⟨b, rfl, trivial⟩
    | _ => cases hk
  | int i =>
    have hbits : Function.Injective Int64.toUInt64 := fun ⟨_⟩ ⟨_⟩ h => congrArg Int64.ofUInt64 h
    refine delimited_of_content .int .int (delimited_number hbits i) (fun _ => rfl) (fun _ => rfl)
      fun w hw hk => ?_
    cases hw with
    | int i => exact ⟨i, rfl, trivial⟩
    | _ => cases hk
  | uint u =>
    refine delimited_of_content .uint .uint (delimited_number Function.injective_id u) (fun _ => rfl)
      (fun _ => rfl) fun w hw hk => ?_
    cases hw with
    | uint u => exact ⟨u, rfl, trivial⟩
    | _ => cases hk
  | double d =>
    have hbits : Function.Injective Double.bits := fun ⟨_⟩ ⟨_⟩ h => congrArg Double.mk h
    refine delimited_of_content .double .double (delimited_number hbits d) (fun _ => rfl) (fun _ => rfl)
      fun w hw hk => ?_
    cases hw with
    | double d => exact ⟨d, rfl, trivial⟩
    | _ => cases hk
  | string hs =>
    refine delimited_of_content .string .string (delimited_text hs) (fun _ => rfl) (fun _ => rfl)
      fun w hw hk => ?_
    cases hw with
    | string hs => exact ⟨_, rfl, hs⟩
    | _ => cases hk
  | bytes hbs =>
    refine delimited_of_content .bytes .bytes (delimited_blob hbs) (fun _ => rfl) (fun _ => rfl)
      fun w hw hk => ?_
    cases hw with
    | bytes hbs => exact ⟨_, rfl, hbs⟩
    | _ => cases hk
  | list hlength _ ih =>
    refine delimited_of_content .list .list (delimited_sequence hlength ih) encoding_list
      (fun _ => rfl) fun w hw hk => ?_
    cases hw with
    | list hlength hitems => exact ⟨_, rfl, hlength, hitems⟩
    | _ => cases hk
  | map hlength _ _ ihkeys ihvalues =>
    have hentries := delimited_sequence hlength fun e he =>
      (delimited_key (ihkeys e he)).pair (ihvalues e he)
    refine delimited_of_content .map .map hentries encoding_map (fun _ => rfl) fun w hw hk => ?_
    cases hw with
    | map hlength hkeys hvalues =>
      exact ⟨_, rfl, hlength, fun e he => ⟨hkeys e he, hvalues e he⟩⟩
    | _ => cases hk
  | @message typeName fields hname hlength hnames _ ihvalues =>
    have hfields := delimited_sequence hlength fun f hf =>
      (delimited_text (hnames f hf)).pair (ihvalues f hf)
    have hmessage := delimited_of_content .message
      (fun c : String × List (String × Value) => .message c.1 c.2)
      ((delimited_text hname).pair hfields) (fun c => encoding_message c.1 c.2) (fun _ => rfl)
    refine hmessage fun w hw hk => ?_
    cases hw with
    | @message typeName fields hname hlength hnames hvalues =>
      exact ⟨(typeName, fields), rfl, hname, hlength, fun f hf => ⟨hnames f hf, hvalues f hf⟩⟩
    | _ => cases hk

end Value

/-! ## Programs -/

/-- A span whose offsets are numbers of 64 bits. -/
structure Span.Fits (s : Span) : Prop where
  start_lt : s.start < numberLimit
  stop_lt : s.stop < numberLimit

theorem Span.Fits.delimited {s : Span} (hs : s.Fits) :
    Delimited Fits (fun s => lengthBytes s.start ++ lengthBytes s.stop) s := by
  intro s' rest rest' hs' h
  have hoffsets := (delimited_length hs.start_lt).pair (delimited_length hs.stop_lt)
  obtain ⟨heq, hrest⟩ := hoffsets (s'.start, s'.stop) rest rest' ⟨hs'.start_lt, hs'.stop_lt⟩ h
  obtain ⟨hstart, hstop⟩ := Prod.mk.inj heq
  obtain ⟨start, stop⟩ := s
  obtain rfl : start = s'.start := hstart
  obtain rfl : stop = s'.stop := hstop
  exact ⟨rfl, hrest⟩

namespace Program

variable {p q : Program}

/-- A program whose lengths and offsets are numbers of 64 bits. -/
structure Fits (p : Program) : Prop where
  code : SequenceFits (fun _ => True) p.code.toList
  constants : SequenceFits Value.Fits p.constants.toList
  strings : SequenceFits TextFits p.strings.toList
  spans : SequenceFits Span.Fits p.spans.toList
  messageFields : SequenceFits (SequenceFits TextFits) p.messageFields.toList

theorem eq_of_encoding_eq (hp : p.Fits) (hq : q.Fits) (h : p.encoding = q.encoding) : p = q := by
  have htexts : ∀ names, SequenceFits TextFits names →
      Delimited (SequenceFits TextFits) (sequenceBytes textBytes) names := fun _ hnames =>
    hnames.delimited fun _ => delimited_text
  simp only [encoding, List.append_assoc] at h
  obtain ⟨hregisters, h⟩ := delimited_word p.registers _ _ _ trivial h
  obtain ⟨hcode, h⟩ := hp.code.delimited (fun w _ => delimited_word w) _ _ _ hq.code h
  obtain ⟨hconstants, h⟩ :=
    hp.constants.delimited (fun _ hv => hv.delimited) _ _ _ hq.constants h
  obtain ⟨hstrings, h⟩ := hp.strings.delimited (fun _ => delimited_text) _ _ _ hq.strings h
  obtain ⟨hspans, h⟩ := hp.spans.delimited (fun _ hs => hs.delimited) _ _ _ hq.spans h
  have hfields := (hp.messageFields.delimited htexts).eq hq.messageFields h
  obtain ⟨code, constants, strings, spans, registers, messageFields⟩ := p
  obtain rfl := hregisters
  obtain rfl := Array.toList_inj.1 hcode
  obtain rfl := Array.toList_inj.1 hconstants
  obtain rfl := Array.toList_inj.1 hstrings
  obtain rfl := Array.toList_inj.1 hspans
  obtain rfl := Array.toList_inj.1 hfields
  rfl

/-- Programs are written as the same bytes only if they are the same, word by word and
    entry by entry. So if two programs have the same fingerprint under any digest, either
    they are the same or their bytes are two different inputs of it with the same result. -/
theorem encoding_injective (hp : p.Fits) (hq : q.Fits) :
    (p.encoding = q.encoding ↔ p = q) ∧
      ∀ digest : List UInt8 → List UInt8, p.fingerprint digest = q.fingerprint digest →
        p = q ∨ p.encoding ≠ q.encoding ∧ digest p.encoding = digest q.encoding := by
  have hinj : p.encoding = q.encoding ↔ p = q := ⟨eq_of_encoding_eq hp hq, congrArg encoding⟩
  refine ⟨hinj, fun digest hfingerprint => ?_⟩
  by_cases heq : p = q
  · exact .inl heq
  · exact .inr ⟨fun h => heq (hinj.1 h), hfingerprint⟩

/-- Beyond 64 bits, an offset is cut off. -/
example : ({ spans := #[⟨0, numberLimit⟩] } : Program).encoding =
    ({ spans := #[⟨0, 0⟩] } : Program).encoding := by
  decide

/-- A program with a message in a map in a list among its constants, and with names. -/
def naming (strings : Array String) : Program where
  code := #[0xFE, 0, 0, 0, 0, 0]
  constants := #[.list [.map [(.string "k", .message "T" [("a", .bytes [0, 255])])], .null],
    .double ⟨0x7ff8000000000001⟩]
  strings
  spans := #[⟨0, 3⟩]
  registers := 1
  messageFields := #[["a", "b"], []]

theorem fits_naming {strings : Array String} (h : SequenceFits TextFits strings.toList) :
    (naming strings).Fits where
  code := ⟨show 6 < numberLimit by decide, fun _ _ => trivial⟩
  constants := by
    have hmessage : Value.Fits (.message "T" [("a", .bytes [0, 255])]) :=
      .message (by decide) (by decide) (by decide)
        (List.forall_mem_singleton.2 (.bytes (by decide)))
    have hmap : Value.Fits (.map [(.string "k", .message "T" [("a", .bytes [0, 255])])]) :=
      .map (by decide) (List.forall_mem_singleton.2 (.string (by decide)))
        (List.forall_mem_singleton.2 hmessage)
    refine ⟨show 2 < numberLimit by decide, List.forall_mem_cons.2 ⟨?_, ?_⟩⟩
    · exact .list (by decide)
        (List.forall_mem_cons.2 ⟨hmap, List.forall_mem_singleton.2 .null⟩)
    · exact List.forall_mem_singleton.2 (.double _)
  strings := h
  spans := ⟨show 1 < numberLimit by decide,
    List.forall_mem_singleton.2 ⟨by decide, by decide⟩⟩
  messageFields := ⟨show 2 < numberLimit by decide,
    List.forall_mem_cons.2 ⟨⟨by decide, by decide⟩,
      List.forall_mem_singleton.2 ⟨by decide, nofun⟩⟩⟩

/-- The bytes tell where one name ends and the next one begins. -/
theorem encoding_naming_ne :
    (naming #["ab", "c"]).Fits ∧ (naming #["a", "bc"]).Fits ∧
      (naming #["ab", "c"]).encoding ≠ (naming #["a", "bc"]).encoding := by
  have hp : (naming #["ab", "c"]).Fits := fits_naming ⟨by decide, by decide⟩
  have hq : (naming #["a", "bc"]).Fits := fits_naming ⟨by decide, by decide⟩
  have hne : naming #["ab", "c"] ≠ naming #["a", "bc"] := fun h =>
    absurd (congrArg strings h) (by decide)
  exact ⟨hp, hq, fun h => hne ((encoding_injective hp hq).1.1 h)⟩

end Program

end ExprMachine
