import Rivloom.Lib.Codec
import Rivloom.Lib.StrMap
import Rivloom.Lib.Sha256

/-!
# Maps and hashes in a snapshot

A map is read by a visitor of its own (`snapshot.rs`), which takes the entries one by
one and refuses a key that is too long, a key that came before, and one entry more than
the limit: a derived reader would let the later of two entries replace the earlier, and
authority would change hands silently. `Rivloom.Collaboration.uniqueMap` is the codec;
its laws say that a map within the limits is read back as it was written, and that a
repeated or an over-long key is a flaw that no snapshot survives.
-/

namespace Rivloom.Collaboration

variable {α : Type} {input : List (String × Json)} {c : Codec α} {limit : ℕ} {values : StrMap α}
  {m : StrMap α} {key : String}

/-- The longest key of a map, in bytes. -/
def maxKeyBytes : ℕ := 128

/-- `visit_map`: add the entries one by one to what was read before. -/
def visitMap (limit : ℕ) (c : Codec α) : List (String × Json) → StrMap α → Option (StrMap α)
  | [], values => some values
  | (key, j) :: input, values =>
    if maxKeyBytes < key.utf8ByteSize || limit ≤ values.size || values.contains key then none
    else
      match c.dec j with
      | some value => visitMap limit c input (values.insert key value)
      | none => none

/-- The maps that fit the limits. -/
def MapFits (limit : ℕ) (c : Codec α) (m : StrMap α) : Prop :=
  m.size ≤ limit ∧ ∀ (k : String) v, m[k]? = some v → k.utf8ByteSize ≤ maxKeyBytes ∧ c.ok v

/-- One entry was read: its key is short and new and there was room, its value was
accepted, and the rest was read from there. -/
theorem visitMap_cons {j : Json} {values r : StrMap α}
    (h : visitMap limit c ((key, j) :: input) values = some r) :
    key.utf8ByteSize ≤ maxKeyBytes ∧ values.size < limit ∧ values[key]? = none ∧
      ∃ v, c.dec j = some v ∧ visitMap limit c input (values.insert key v) = some r := by
  rw [visitMap] at h
  split at h
  · cases h
  · next hkey =>
    simp only [Bool.or_eq_true, decide_eq_true_eq, not_or, not_lt, not_le, Bool.not_eq_true] at hkey
    refine ⟨hkey.1.1, hkey.1.2, StrMap.contains_eq_false.mp hkey.2, ?_⟩
    split at h
    · next v hv => exact ⟨v, hv, h⟩
    · cases h

theorem mapFits_insert {v : α} (h : MapFits limit c m) (hkey : key.utf8ByteSize ≤ maxKeyBytes)
    (hv : c.ok v) (hsize : m.size < limit) : MapFits limit c (m.insert key v) := by
  refine ⟨by have := StrMap.size_insert_le (m := m) (k := key) (v := v); omega, ?_⟩
  intro k w hw
  rw [StrMap.getElem?_insert] at hw
  split at hw
  · next heq =>
    rw [← heq, ← Option.some.inj hw]
    exact ⟨hkey, hv⟩
  · exact h.2 k w hw

/-- **Whatever is read fits the limits.** -/
theorem mapFits_of_visitMap {values r : StrMap α} (h : visitMap limit c input values = some r)
    (hvalues : MapFits limit c values) : MapFits limit c r := by
  induction input generalizing values with
  | nil =>
    rw [← Option.some.inj h]
    exact hvalues
  | cons e input ih =>
    obtain ⟨hkey, hsize, -, v, hv, hrest⟩ := visitMap_cons h
    exact ih hrest (mapFits_insert hvalues hkey (c.ok_of_dec _ _ hv) hsize)

/-- Entries written and not yet read are read back, and the map they are added to grows
by exactly them. -/
theorem visitMap_map_enc {l : List (String × α)} (hnodup : (l.map Prod.fst).Nodup)
    (hnew : ∀ e ∈ l, values[e.1]? = none) (hok : ∀ e ∈ l, e.1.utf8ByteSize ≤ maxKeyBytes ∧ c.ok e.2)
    (hsize : values.size + l.length ≤ limit) :
    ∃ r, visitMap limit c (l.map fun e => (e.1, c.enc e.2)) values = some r ∧
      (∀ e ∈ l, r[e.1]? = some e.2) ∧
      ∀ k : String, k ∉ l.map Prod.fst → r[k]? = values[k]? := by
  induction l generalizing values with
  | nil => exact ⟨values, rfl, by simp, fun _ _ => rfl⟩
  | cons e l ih =>
    obtain ⟨key, v⟩ := e
    rw [List.map_cons, List.nodup_cons] at hnodup
    have hkey := hok (key, v) (by simp)
    have hnone : values[key]? = none := hnew (key, v) (by simp)
    rw [List.length_cons] at hsize
    obtain ⟨r, hr, hmem, hrest⟩ := @ih (values.insert key v) hnodup.2
      (fun e he => by
        rw [StrMap.getElem?_insert, if_neg]
        · exact hnew e (by simp [he])
        · intro heq
          exact hnodup.1 (List.mem_map.mpr ⟨e, he, heq.symm⟩))
      (fun e he => hok e (by simp [he]))
      (by rw [StrMap.size_insert_of_none hnone]; omega)
    refine ⟨r, ?_, ?_, ?_⟩
    · rw [List.map_cons, visitMap, if_neg]
      · rw [c.dec_enc v hkey.2]
        exact hr
      · simp only [Bool.or_eq_true, decide_eq_true_eq, not_or, not_lt, not_le, Bool.not_eq_true]
        exact ⟨⟨hkey.1, by omega⟩, StrMap.contains_eq_false.mpr hnone⟩
    · intro e he
      rcases List.mem_cons.mp he with rfl | he
      · rw [hrest key hnodup.1, StrMap.getElem?_insert, if_pos rfl]
      · exact hmem e he
    · intro k hk
      rw [List.map_cons, List.mem_cons, not_or] at hk
      rw [hrest k hk.2, StrMap.getElem?_insert, if_neg (Ne.symm hk.1)]

/-- **A map within the limits is read back as it was written.** -/
theorem visitMap_toList (h : MapFits limit c m) :
    visitMap limit c (m.toList.map fun e => (e.1, c.enc e.2)) ∅ = some m := by
  have hnodup : (m.toList.map Prod.fst).Nodup := by
    rw [Std.ExtTreeMap.map_fst_toList_eq_keys]
    exact Std.ExtTreeMap.nodup_keys
  obtain ⟨r, hr, hmem, hrest⟩ := @visitMap_map_enc α c limit ∅ m.toList hnodup
    (fun e _ => by simp) (fun e he => h.2 e.1 e.2 (StrMap.mem_toList.mp he))
    (by rw [Std.ExtTreeMap.size_empty, Std.ExtTreeMap.length_toList]; have := h.1; omega)
  rw [hr]
  congr 1
  apply Std.ExtTreeMap.ext_getElem?
  intro k
  cases hk : m[k]? with
  | some v => exact hmem (k, v) (StrMap.mem_toList.mpr hk)
  | none =>
    rw [hrest k, Std.ExtTreeMap.getElem?_empty]
    rw [Std.ExtTreeMap.map_fst_toList_eq_keys, Std.ExtTreeMap.mem_keys,
      Std.ExtTreeMap.mem_iff_isSome_getElem?, hk]
    simp

/-- An entry that is refused wherever it stands makes the whole map refused. -/
theorem visitMap_of_bad {e : String × Json} (he : e ∈ input)
    (hbad : maxKeyBytes < e.1.utf8ByteSize ∨ c.dec e.2 = none) :
    visitMap limit c input values = none := by
  rw [Option.eq_none_iff_forall_ne_some]
  intro r hr
  induction input generalizing values with
  | nil => cases he
  | cons e' input ih =>
    obtain ⟨hkey, -, -, v, hv, hrest⟩ := visitMap_cons hr
    rcases List.mem_cons.mp he with rfl | he
    · rcases hbad with hlong | hnone
      · omega
      · rw [hnone] at hv
        cases hv
    · exact ih he hrest

theorem visitMap_of_old {k : String} (hk : k ∈ input.map Prod.fst) (hold : values[k]? ≠ none) :
    visitMap limit c input values = none := by
  rw [Option.eq_none_iff_forall_ne_some]
  intro r hr
  induction input generalizing values with
  | nil => cases hk
  | cons e input ih =>
    obtain ⟨-, -, hnone, v, -, hrest⟩ := visitMap_cons hr
    rw [List.map_cons, List.mem_cons] at hk
    rcases hk with rfl | hk
    · exact hold hnone
    · refine ih hk ?_ hrest
      rw [StrMap.getElem?_insert]
      split
      · simp
      · exact hold

/-- **A repeated key is refused.** -/
theorem visitMap_of_repeated (h : ¬(input.map Prod.fst).Nodup) :
    visitMap limit c input values = none := by
  rw [Option.eq_none_iff_forall_ne_some]
  intro r hr
  induction input generalizing values with
  | nil => exact h (by simp)
  | cons e input ih =>
    obtain ⟨-, -, -, v, -, hrest⟩ := visitMap_cons hr
    rw [List.map_cons, List.nodup_cons, not_and_or, not_not] at h
    rcases h with hmem | h
    · rw [visitMap_of_old hmem (by simp)] at hrest
      cases hrest
    · exact ih h hrest

/-- **A bounded map with unique keys.** -/
def uniqueMap (limit : ℕ) (c : Codec α) : Codec (StrMap α) where
  enc m := .obj (m.toList.map fun e => (e.1, c.enc e.2))
  dec
    | .obj input => visitMap limit c input ∅
    | _ => none
  absent := none
  ok := MapFits limit c
  flaw j := ∃ input, j = .obj input ∧
    (¬(input.map Prod.fst).Nodup ∨
      ∃ e ∈ input, maxKeyBytes < e.1.utf8ByteSize ∨ c.flaw e.2)
  dec_enc _ h := visitMap_toList h
  ok_of_dec j m h := by
    cases j with
    | obj input => exact mapFits_of_visitMap h ⟨by simp, fun k v hv => by simp at hv⟩
    | _ => cases h
  ok_of_absent _ h := by cases h
  dec_flaw j h := by
    obtain ⟨input, rfl, hrepeated | ⟨e, he, hbad⟩⟩ := h
    · exact visitMap_of_repeated hrepeated
    · exact visitMap_of_bad he (hbad.imp_right (c.dec_flaw _))

/-! ### Bytes -/

/-- Bytes, as numbers. -/
def u8 : Codec UInt8 :=
  (Codec.uint 8).refine (fun n => if n < 256 then some (UInt8.ofNat n) else none) UInt8.toNat
    (fun b => by rw [if_pos b.toNat_lt, UInt8.ofNat_toNat])
    (fun n b h => by
      split at h
      · next hlt =>
        rw [← Option.some.inj h, UInt8.toNat_ofNat', Nat.mod_eq_of_lt hlt]
      · cases h)

/-- A hash, as the list of its 32 bytes. -/
def digestCodec : Codec Digest :=
  (Codec.list u8).refine (fun l => if h : l.length = 32 then some ⟨l, h⟩ else none) Subtype.val
    (fun d => dif_pos d.2)
    (fun l d h => by
      split at h
      · rw [← Option.some.inj h]
      · cases h)

theorem digestCodec_ok (d : Digest) : digestCodec.ok d := fun b _ => b.toNat_lt

end Rivloom.Collaboration
