import Mathlib.Data.List.Perm.Subperm
import ExprMachine.Proofs.Contents

/-!
# Tables that cover each other

Tables are compared by looking in the one for every entry of the other. What is looked for
need not be a key itself, but what it is taken for (`Entries.Covers`). If the keys of a
table are taken for different things, and a table that is no longer covers it, nothing is
left over in the second table: it is covered in turn, and its keys are taken for different
things as well (`Entries.Covers.symm`, `Entries.Covers.nodup`).

So tables of one length of which one covers the other are one table, once all keys and
values are replaced by what they are taken for (`Entries.covers_iff_get?_view`).
-/

namespace ExprMachine.Entries

variable {κ α γ δ : Type} {t t' : Entries κ α} {f : κ → γ} {R R' : α → α → Prop}

/-- Every entry of the first table has one in the second with a key that is taken for the
    same and a value to which its value is related. -/
def Covers (f : κ → γ) (R : α → α → Prop) (t t' : Entries κ α) : Prop :=
  ∀ e ∈ t, ∃ e' ∈ t', f e'.1 = f e.1 ∧ R e.2 e'.2

section

variable (hcovers : Covers f R t t') (hnodup : (t.keys.map f).Nodup)
  (hlength : t'.length ≤ t.length)
include hcovers hnodup hlength

/-- A table that covers another one without being longer has keys for the same things. -/
theorem Covers.keys_perm : (t.keys.map f).Perm (t'.keys.map f) := by
  have hsubset : t.keys.map f ⊆ t'.keys.map f := by
    intro k hk
    obtain ⟨j, hj, rfl⟩ := List.mem_map.1 hk
    obtain ⟨e, he, rfl⟩ := List.mem_map.1 hj
    obtain ⟨e', he', hkey, -⟩ := hcovers e he
    exact List.mem_map.2 ⟨e'.1, List.mem_map_of_mem he', hkey⟩
  refine (List.subperm_of_subset hnodup hsubset).perm_of_length_le ?_
  simpa [keys] using hlength

theorem Covers.nodup : (t'.keys.map f).Nodup :=
  (hcovers.keys_perm hnodup hlength).nodup_iff.1 hnodup

/-- A table that covers another one without being longer is covered by it. -/
theorem Covers.symm (hR : ∀ e ∈ t, ∀ v, R e.2 v → R' v e.2) : Covers f R' t' t := by
  have hnodup' := hcovers.nodup hnodup hlength
  rw [keys, List.map_map] at hnodup'
  intro e' he'
  have hkey : f e'.1 ∈ t.keys.map f :=
    (hcovers.keys_perm hnodup hlength).mem_iff.2
      (List.mem_map_of_mem (List.mem_map_of_mem he'))
  obtain ⟨j, hj, hje'⟩ := List.mem_map.1 hkey
  obtain ⟨e, he, rfl⟩ := List.mem_map.1 hj
  -- The entry that covers `e` has a key for the same thing as `e'`, so it is `e'`.
  obtain ⟨e'', he'', hkey', hvalue⟩ := hcovers e he
  obtain rfl := List.inj_on_of_nodup_map hnodup' he'' he' (hkey'.trans hje')
  exact ⟨e, he, hje', hR e he _ hvalue⟩

end

/-! ## Looking up -/

section

variable [DecidableEq κ] {k : κ} {v : α}

theorem mem_of_get?_eq_some (h : t.get? k = some v) : (k, v) ∈ t := by
  induction t with
  | nil => cases h
  | cons p rest ih =>
    obtain ⟨j, w⟩ := p
    rw [get?] at h
    split at h
    · rename_i hj
      cases h
      exact hj ▸ List.mem_cons_self
    · exact List.mem_cons_of_mem _ (ih h)

theorem covers_of_forall_get? (h : ∀ e ∈ t, ∃ w, t'.get? e.1 = some w ∧ R e.2 w) :
    Covers id R t t' := by
  intro e he
  obtain ⟨w, hget, hw⟩ := h e he
  exact ⟨(e.1, w), mem_of_get?_eq_some hget, rfl, hw⟩

theorem Covers.forall_get? (hcovers : Covers id R t t') (hnodup : t'.keys.Nodup) :
    ∀ e ∈ t, ∃ w, t'.get? e.1 = some w ∧ R e.2 w := by
  intro e he
  obtain ⟨⟨j, w⟩, hmem, rfl, hw⟩ := hcovers e he
  exact ⟨w, (get?_eq_some_iff_mem hnodup).2 hmem, hw⟩

/-- If all entries of a table are found in one that is no longer, all entries of that one
    are found in the first. -/
theorem forall_get?_symm (hnodup : t.keys.Nodup) (hlength : t'.length ≤ t.length)
    (hR : ∀ e ∈ t, ∀ v, R e.2 v → R v e.2) (h : ∀ e ∈ t, ∃ w, t'.get? e.1 = some w ∧ R e.2 w) :
    ∀ e ∈ t', ∃ w, t.get? e.1 = some w ∧ R e.2 w := by
  have hcovers : Covers id R t t' := covers_of_forall_get? h
  exact (hcovers.symm (by rwa [List.map_id]) hlength hR).forall_get? hnodup

end

/-! ## Tables as they are taken -/

/-- A table with its keys and values replaced by what they are taken for. -/
def view (f : κ → γ) (g : α → δ) (t : Entries κ α) : Entries γ δ := t.map (Prod.map f g)

theorem keys_view (f : κ → γ) (g : α → δ) (t : Entries κ α) :
    (t.view f g).keys = t.keys.map f := by
  simp [keys, view]

variable [DecidableEq γ] {g : α → δ} {j : γ} {x : δ}
  (hnodup : (t.keys.map f).Nodup) (hnodup' : (t'.keys.map f).Nodup)
include hnodup

theorem get?_view_eq_some_iff :
    (t.view f g).get? j = some x ↔ ∃ e ∈ t, f e.1 = j ∧ g e.2 = x := by
  rw [get?_eq_some_iff_mem (by rwa [keys_view]), view, List.mem_map]
  simp [Prod.map, Prod.ext_iff]

include hnodup'

/-- What is found in a table is found in one that covers it. -/
theorem Covers.get?_view (hcovers : Covers f (fun v w => g v = g w) t t')
    (h : (t.view f g).get? j = some x) : (t'.view f g).get? j = some x := by
  obtain ⟨e, he, rfl, rfl⟩ := (get?_view_eq_some_iff hnodup).1 h
  obtain ⟨e', he', hkey, hvalue⟩ := hcovers e he
  exact (get?_view_eq_some_iff hnodup').2 ⟨e', he', hkey, hvalue.symm⟩

/-- If values are related just where they are taken for the same, one of two tables of one
    length covers the other just where they are taken for one table. -/
theorem covers_iff_get?_view (hR : ∀ e ∈ t, ∀ e' ∈ t', R e.2 e'.2 ↔ g e.2 = g e'.2) :
    t.length = t'.length ∧ Covers f R t t' ↔ (t.view f g).get? = (t'.view f g).get? := by
  constructor
  · rintro ⟨hlength, hcovers⟩
    have hforth : Covers f (fun v w => g v = g w) t t' := by
      intro e he
      obtain ⟨e', he', hkey, hvalue⟩ := hcovers e he
      exact ⟨e', he', hkey, (hR e he e' he').1 hvalue⟩
    have hback : Covers f (fun v w => g v = g w) t' t :=
      hforth.symm hnodup (Nat.le_of_eq hlength.symm) fun _ _ _ h => h.symm
    funext j
    exact Option.ext fun x => ⟨hforth.get?_view hnodup hnodup', hback.get?_view hnodup' hnodup⟩
  · intro h
    have hkeys : (t.keys.map f).Perm (t'.keys.map f) := by
      refine (List.perm_ext_iff_of_nodup hnodup hnodup').2 fun j => ?_
      rw [← keys_view f g, ← keys_view f g, mem_keys_iff, mem_keys_iff, h]
    refine ⟨by simpa [keys] using hkeys.length_eq, fun e he => ?_⟩
    have hget := (get?_view_eq_some_iff (g := g) hnodup).2 ⟨e, he, rfl, rfl⟩
    rw [h] at hget
    obtain ⟨e', he', hkey, hvalue⟩ := (get?_view_eq_some_iff hnodup').1 hget
    exact ⟨e', he', hkey, (hR e he e' he').2 hvalue.symm⟩

end ExprMachine.Entries
