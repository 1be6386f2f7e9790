import Rivloom.Lib.JsonParse
import Mathlib.Logic.Equiv.Basic

/-!
# Codecs: typed values in JSON

A `Rivloom.Codec` is a pair of a writer and a strict reader for one type, together
with what makes the pair trustworthy: the values the format can carry
(`Rivloom.Codec.ok`) are read back as they were written, whatever is read is one of
them, and a JSON value with a flaw – a field that the record read there does not have,
say – is refused. The laws are fields of the structure, so a codec that is built is a
codec that works, and the codec of a record is assembled from the codecs of its fields.

The readers are the ones a derived deserializer generates. A record
(`Rivloom.Codec.struct`) is read from an object – no unknown field, no field twice,
and a field that may be left out takes its default – or from an array that lists the
fields in order. An enumeration whose variants carry data is read from its tag and
its content (`Rivloom.Codec.tagged`), or from one object that holds the tag among the
fields of the variant (`Rivloom.Codec.internal`); either may be an array as well.
-/

namespace Rivloom

/-- **A codec**: a writer and a strict reader of JSON for one type. -/
structure Codec (α : Type) where
  /-- The JSON value written for a value. -/
  enc : α → Json
  /-- The value read from a JSON value, if it is accepted. -/
  dec : Json → Option α
  /-- The value of a field that an object leaves out, if it may. -/
  absent : Option α
  /-- The values the format can carry. -/
  ok : α → Prop
  /-- Somewhere in the JSON value stands what no strict reader lets pass: where a record
  is read, a field that the record does not have; where a map is read, a key twice. -/
  flaw : Json → Prop
  dec_enc : ∀ a, ok a → dec (enc a) = some a
  ok_of_dec : ∀ j a, dec j = some a → ok a
  ok_of_absent : ∀ a, absent = some a → ok a
  dec_flaw : ∀ j, flaw j → dec j = none

namespace Codec

variable {α β : Type} {js : List Json} {ms : List (String × Json)} {j : Json} {name : String}
  {as : List α} {a : α} {m : String × Json} (c : Codec α)

/-- The bytes of a value. -/
def toBytes (c : Codec α) (a : α) : ByteArray := (c.enc a).bytes

/-- The value read from bytes. -/
def ofBytes (c : Codec α) (b : ByteArray) : Option α := (Json.ofBytes b).bind c.dec

/-- **Bytes written are read back.** -/
theorem ofBytes_toBytes (h : c.ok a) : c.ofBytes (c.toBytes a) = some a := by
  rw [ofBytes, toBytes, Json.ofBytes_bytes, Option.bind_some, c.dec_enc a h]

theorem ok_of_ofBytes {b : ByteArray} (h : c.ofBytes b = some a) : c.ok a := by
  obtain ⟨j, -, hj⟩ := Option.bind_eq_some_iff.mp h
  exact c.ok_of_dec j a hj

/-! ### Scalars -/

/-- Booleans. -/
def bool : Codec Bool where
  enc := .bool
  dec
    | .bool b => some b
    | _ => none
  absent := none
  ok _ := True
  flaw _ := False
  dec_enc _ _ := rfl
  ok_of_dec _ _ _ := trivial
  ok_of_absent _ h := by cases h
  dec_flaw _ h := h.elim

/-- Strings. -/
def string : Codec String where
  enc := .str
  dec
    | .str s => some s
    | _ => none
  absent := none
  ok _ := True
  flaw _ := False
  dec_enc _ _ := rfl
  ok_of_dec _ _ _ := trivial
  ok_of_absent _ h := by cases h
  dec_flaw _ h := h.elim

/-- Unsigned integers of a fixed width. -/
def uint (width : ℕ) : Codec ℕ where
  enc n := .num n
  dec
    | .num (.ofNat n) => if n < 2 ^ width then some n else none
    | _ => none
  absent := none
  ok n := n < 2 ^ width
  flaw _ := False
  dec_enc n h := if_pos h
  ok_of_dec j n h := by
    split at h
    · split at h
      · next hlt => exact Option.some.inj h ▸ hlt
      · cases h
    · cases h
  ok_of_absent _ h := by cases h
  dec_flaw _ h := h.elim

/-- Signed integers of a fixed width. -/
def sint (width : ℕ) : Codec ℤ where
  enc n := .num n
  dec
    | .num n => if -2 ^ (width - 1) ≤ n ∧ n < 2 ^ (width - 1) then some n else none
    | _ => none
  absent := none
  ok n := -2 ^ (width - 1) ≤ n ∧ n < 2 ^ (width - 1)
  flaw _ := False
  dec_enc n h := if_pos h
  ok_of_dec j n h := by
    split at h
    · split at h
      · next hlt => exact Option.some.inj h ▸ hlt
      · cases h
    · cases h
  ok_of_absent _ h := by cases h
  dec_flaw _ h := h.elim

/-- Any JSON value, kept as it is. -/
def raw : Codec Json where
  enc := id
  dec := some
  absent := none
  ok _ := True
  flaw _ := False
  dec_enc _ _ := rfl
  ok_of_dec _ _ _ := trivial
  ok_of_absent _ h := by cases h
  dec_flaw _ h := h.elim

/-- An enumeration without data, written as the word of its variant. -/
def words (all : List α) (word : α → String)
    (h : ∀ a, all.find? (fun b => word b == word a) = some a) : Codec α where
  enc a := .str (word a)
  dec
    | .str s => all.find? fun b => word b == s
    | _ => none
  absent := none
  ok _ := True
  flaw _ := False
  dec_enc a _ := h a
  ok_of_dec _ _ _ := trivial
  ok_of_absent _ h := by cases h
  dec_flaw _ h := h.elim

/-! ### Optional values and lists -/

/-- Read an optional value. -/
def decOption (c : Codec α) : Json → Option (Option α)
  | .null => some none
  | j => (c.dec j).map some

theorem decOption_of_ne (h : j ≠ .null) : decOption c j = (c.dec j).map some := by
  cases j with
  | null => exact absurd rfl h
  | _ => rfl

/-- An optional value: `null`, or left out, for none. -/
def option (c : Codec α) (h : ∀ a, c.enc a ≠ .null) : Codec (Option α) where
  enc
    | none => .null
    | some a => c.enc a
  dec := decOption c
  absent := some none
  ok o := ∀ a, o = some a → c.ok a
  flaw j := j ≠ .null ∧ c.flaw j
  dec_enc o ho := by
    cases o with
    | none => rfl
    | some a => simp only [decOption_of_ne c (h a), c.dec_enc a (ho a rfl), Option.map_some]
  ok_of_dec j o hj a ho := by
    subst ho
    have hne : j ≠ .null := by
      rintro rfl
      cases hj
    rw [decOption_of_ne c hne] at hj
    obtain ⟨a', ha', hsame⟩ := Option.map_eq_some_iff.mp hj
    obtain rfl : a' = a := Option.some.inj hsame
    exact c.ok_of_dec j a' ha'
  ok_of_absent o ho a h := by
    subst h
    cases ho
  dec_flaw j hj := by
    rw [decOption_of_ne c hj.1, c.dec_flaw j hj.2, Option.map_none]

/-- Read every item of a list, or none. -/
def decList (c : Codec α) : List Json → Option (List α)
  | [] => some []
  | j :: js => do
    let a ← c.dec j
    let as ← decList c js
    return a :: as

theorem decList_eq_cons (h : decList c (j :: js) = some as) :
    ∃ a as', c.dec j = some a ∧ decList c js = some as' ∧ as = a :: as' := by
  simp only [decList, Option.bind_eq_bind, Option.bind_eq_some_iff, Option.pure_def,
    Option.some.injEq] at h
  obtain ⟨a, ha, as', has', rfl⟩ := h
  exact ⟨a, as', ha, has', rfl⟩

theorem decList_map_enc (h : ∀ a ∈ as, c.ok a) : decList c (as.map c.enc) = some as := by
  induction as with
  | nil => rfl
  | cons a as ih =>
    simp only [List.map_cons, decList, c.dec_enc a (h a (by simp)),
      ih fun b hb => h b (by simp [hb]), Option.bind_eq_bind, Option.bind_some, Option.pure_def]

theorem ok_of_decList (h : decList c js = some as) : ∀ a ∈ as, c.ok a := by
  induction js generalizing as with
  | nil =>
    obtain rfl : as = [] := by simpa [decList] using h.symm
    simp
  | cons j js ih =>
    obtain ⟨a, as', ha, has', rfl⟩ := decList_eq_cons c h
    intro b hb
    rcases List.mem_cons.mp hb with rfl | hb
    · exact c.ok_of_dec j b ha
    · exact ih has' b hb

theorem decList_of_mem_none (hj : j ∈ js) (h : c.dec j = none) : decList c js = none := by
  induction js with
  | nil => cases hj
  | cons j' js ih =>
    rcases List.mem_cons.mp hj with rfl | hj
    · simp [decList, h]
    · cases hdec : c.dec j' <;> simp [decList, hdec, ih hj]

/-- A list. -/
def list (c : Codec α) : Codec (List α) where
  enc as := .arr (as.map c.enc)
  dec
    | .arr js => decList c js
    | _ => none
  absent := none
  ok as := ∀ a ∈ as, c.ok a
  flaw j := ∃ js, j = .arr js ∧ ∃ x ∈ js, c.flaw x
  dec_enc _ h := decList_map_enc c h
  ok_of_dec j as h := by
    cases j with
    | arr js => exact ok_of_decList c h
    | _ => cases h
  ok_of_absent _ h := by cases h
  dec_flaw j h := by
    obtain ⟨js, rfl, x, hx, hflaw⟩ := h
    exact decList_of_mem_none c hx (c.dec_flaw x hflaw)

/-! ### Checked conversions -/

/-- Values that are checked on the way in: the reader refuses what the check
refuses. -/
def refine (c : Codec α) (check : α → Option β) (back : β → α)
    (hcheck : ∀ b, check (back b) = some b) (hback : ∀ a b, check a = some b → back b = a) :
    Codec β where
  enc b := c.enc (back b)
  dec j := (c.dec j).bind check
  absent := none
  ok b := c.ok (back b)
  flaw := c.flaw
  dec_enc b h := by rw [c.dec_enc _ h, Option.bind_some, hcheck]
  ok_of_dec j b h := by
    obtain ⟨a, ha, hab⟩ := Option.bind_eq_some_iff.mp h
    rw [hback a b hab]
    exact c.ok_of_dec j a ha
  ok_of_absent _ h := by cases h
  dec_flaw j h := by rw [c.dec_flaw j h, Option.bind_none]

/-- The values that pass a check: the reader refuses the others. -/
def filter (c : Codec α) (p : α → Bool) : Codec α where
  enc := c.enc
  dec j := (c.dec j).filter p
  absent := none
  ok a := c.ok a ∧ p a = true
  flaw := c.flaw
  dec_enc a h := by rw [c.dec_enc a h.1, Option.filter_some, if_pos h.2]
  ok_of_dec j a h := by
    obtain ⟨ha, hp⟩ := Option.filter_eq_some_iff.mp h
    exact ⟨c.ok_of_dec j a ha, hp⟩
  ok_of_absent _ h := by cases h
  dec_flaw j h := by rw [c.dec_flaw j h, Option.filter_none]

/-! ### Records -/

/-- The fields of a record, in the order they are written. -/
inductive Fields : Type → Type 1
  /-- No field is left. -/
  | nil : Fields Unit
  /-- One field, and the ones after it. -/
  | cons {α β : Type} (name : String) (c : Codec α) (rest : Fields β) : Fields (α × β)

namespace Fields

variable {τ : Type} {t : τ} (f : Fields τ)

/-- The names of the fields. -/
def names : {τ : Type} → Fields τ → List String
  | _, .nil => []
  | _, .cons name _ rest => name :: rest.names

theorem nodup_names_nil : nil.names.Nodup := List.nodup_nil

/-- The members written for the fields. -/
def enc : {τ : Type} → Fields τ → τ → List (String × Json)
  | _, .nil, _ => []
  | _, .cons name c rest, (a, b) => (name, c.enc a) :: rest.enc b

/-- Read the fields of an object through the value it holds for each name. -/
def decObj : {τ : Type} → Fields τ → (String → Option Json) → Option τ
  | _, .nil, _ => some ()
  | _, .cons name c rest, look =>
    match (match look name with
      | some j => c.dec j
      | none => c.absent) with
    | some a => (rest.decObj look).map fun b => (a, b)
    | none => none

/-- Read the fields of an array that lists them all in order. -/
def decArr : {τ : Type} → Fields τ → List Json → Option τ
  | _, .nil, [] => some ()
  | _, .nil, _ :: _ => none
  | _, .cons _ _ _, [] => none
  | _, .cons _ c rest, j :: js =>
    match c.dec j with
    | some a => (rest.decArr js).map fun b => (a, b)
    | none => none

/-- The values the fields can carry. -/
def ok : {τ : Type} → Fields τ → τ → Prop
  | _, .nil, _ => True
  | _, .cons _ c rest, (a, b) => c.ok a ∧ rest.ok b

/-- A field whose value, among the members of an object, has a flaw. -/
def flawIn : {τ : Type} → Fields τ → List (String × Json) → Prop
  | _, .nil, _ => False
  | _, .cons name c rest, ms => (∃ j, (name, j) ∈ ms ∧ c.flaw j) ∨ rest.flawIn ms

/-- An item of an array of fields that has a flaw. -/
def flawAt : {τ : Type} → Fields τ → List Json → Prop
  | _, .nil, _ => False
  | _, .cons _ _ _, [] => False
  | _, .cons _ c rest, j :: js => c.flaw j ∨ rest.flawAt js

theorem fst_mem_names (h : m ∈ f.enc t) : m.1 ∈ f.names := by
  induction f with
  | nil => cases h
  | cons name c rest ih =>
    obtain ⟨a, b⟩ := t
    rcases List.mem_cons.mp h with rfl | h
    · exact List.mem_cons_self
    · exact List.mem_cons_of_mem _ (ih h)

theorem fst_ne_of_mem_enc (hname : name ∉ f.names) (t : τ) : ∀ m ∈ f.enc t, m.1 ≠ name := by
  rintro m hm rfl
  exact hname (f.fst_mem_names hm)

theorem map_fst_enc (t : τ) : (f.enc t).map Prod.fst = f.names := by
  induction f with
  | nil => rfl
  | cons name c rest ih =>
    obtain ⟨a, b⟩ := t
    rw [enc, names, List.map_cons, ih]

/-- The fields are read back from any object that holds what was written for them. -/
theorem decObj_of_look {look : String → Option Json} (hok : f.ok t)
    (h : ∀ m ∈ f.enc t, look m.1 = some m.2) : f.decObj look = some t := by
  induction f with
  | nil => rfl
  | cons name c rest ih =>
    obtain ⟨a, b⟩ := t
    have hname : look name = some (c.enc a) := h (name, c.enc a) (by simp [enc])
    have hrest := ih hok.2 fun m hm => h m (by simp [enc, hm])
    simp only [decObj, hname, c.dec_enc a hok.1, hrest, Option.map_some]

theorem ok_of_decObj {look : String → Option Json} (h : f.decObj look = some t) : f.ok t := by
  induction f with
  | nil => trivial
  | cons name c rest ih =>
    obtain ⟨a, b⟩ := t
    simp only [decObj] at h
    split at h
    · next a' ha' =>
      obtain ⟨b', hb', hpair⟩ := Option.map_eq_some_iff.mp h
      obtain ⟨rfl, rfl⟩ := Prod.mk.inj hpair
      refine ⟨?_, ih hb'⟩
      split at ha'
      · exact c.ok_of_dec _ _ ha'
      · exact c.ok_of_absent _ ha'
    · cases h

theorem ok_of_decArr (h : f.decArr js = some t) : f.ok t := by
  induction f generalizing js with
  | nil => trivial
  | cons name c rest ih =>
    obtain ⟨a, b⟩ := t
    cases js with
    | nil => cases h
    | cons j js =>
      simp only [decArr] at h
      split at h
      · next a' ha' =>
        obtain ⟨b', hb', hpair⟩ := Option.map_eq_some_iff.mp h
        obtain ⟨rfl, rfl⟩ := Prod.mk.inj hpair
        exact ⟨c.ok_of_dec _ _ ha', ih hb'⟩
      · cases h

theorem decObj_flaw {look : String → Option Json} (hlook : ∀ m ∈ ms, look m.1 = some m.2)
    (h : f.flawIn ms) : f.decObj look = none := by
  induction f with
  | nil => exact h.elim
  | cons name c rest ih =>
    rcases h with ⟨j, hj, hflaw⟩ | h
    · simp only [decObj, hlook _ hj, c.dec_flaw j hflaw]
    · simp only [decObj, ih h, Option.map_none]
      split <;> rfl

theorem decArr_flaw (h : f.flawAt js) : f.decArr js = none := by
  induction f generalizing js with
  | nil => exact h.elim
  | cons name c rest ih =>
    cases js with
    | nil => exact h.elim
    | cons j js =>
      rcases h with h | h
      · simp only [decArr, c.dec_flaw j h]
      · simp only [decArr, ih h, Option.map_none]
        split <;> rfl

end Fields

/-- The value an object holds for a key. -/
def look (ms : List (String × Json)) (key : String) : Option Json := ms.lookup key

theorem look_eq_some (hnodup : (ms.map Prod.fst).Nodup) (hm : m ∈ ms) : look ms m.1 = some m.2 := by
  induction ms with
  | nil => cases hm
  | cons m' ms ih =>
    obtain ⟨k, v⟩ := m'
    rw [List.map_cons, List.nodup_cons] at hnodup
    rcases List.mem_cons.mp hm with rfl | hm
    · simp [look]
    · have hne : m.1 ≠ k := by
        intro heq
        rw [← heq] at hnodup
        exact hnodup.1 (List.mem_map.mpr ⟨m, hm, rfl⟩)
      rw [look, List.lookup_cons, beq_eq_false_iff_ne.mpr hne]
      exact ih hnodup.2 hm

/-- Read the fields of a record from an object or from an array. -/
def decFields {τ : Type} (f : Fields τ) : Json → Option τ
  | .obj ms =>
    if (ms.map Prod.fst).Nodup ∧ ∀ m ∈ ms, m.1 ∈ f.names then f.decObj (look ms) else none
  | .arr js => f.decArr js
  | _ => none

/-- **A record**: an object with the fields, no other and none twice, or an array of
the fields in order. -/
def struct {τ : Type} (f : Fields τ) (e : α ≃ τ) (hnames : f.names.Nodup) : Codec α where
  enc a := .obj (f.enc (e a))
  dec j := (decFields f j).map e.symm
  absent := none
  ok a := f.ok (e a)
  flaw j :=
    (∃ ms, j = .obj ms ∧ ((∃ m ∈ ms, m.1 ∉ f.names) ∨ f.flawIn ms)) ∨
    (∃ js, j = .arr js ∧ f.flawAt js)
  dec_enc a h := by
    have hnodup : ((f.enc (e a)).map Prod.fst).Nodup := by rwa [f.map_fst_enc]
    have hmem : ∀ m ∈ f.enc (e a), m.1 ∈ f.names := fun m hm => f.fst_mem_names hm
    have hdec := f.decObj_of_look h fun m hm => look_eq_some hnodup hm
    rw [decFields, if_pos ⟨hnodup, hmem⟩, hdec, Option.map_some, e.symm_apply_apply]
  ok_of_dec j a h := by
    obtain ⟨t, ht, rfl⟩ := Option.map_eq_some_iff.mp h
    rw [e.apply_symm_apply]
    cases j with
    | obj ms =>
      rw [decFields] at ht
      split at ht
      · exact f.ok_of_decObj ht
      · cases ht
    | arr js => exact f.ok_of_decArr ht
    | _ => cases ht
  ok_of_absent _ h := by cases h
  dec_flaw j h := by
    rcases h with ⟨ms, rfl, hms⟩ | ⟨js, rfl, hjs⟩
    · rw [decFields]
      split
      · next hgood =>
        rcases hms with ⟨m, hm, hname⟩ | hms
        · exact absurd (hgood.2 m hm) hname
        · rw [f.decObj_flaw (fun m hm => look_eq_some hgood.1 hm) hms, Option.map_none]
      · rfl
    · rw [decFields, f.decArr_flaw hjs, Option.map_none]

/-- A record that is read from an object only. -/
def objectOnly (c : Codec α) (h : ∀ a, ∃ ms, c.enc a = .obj ms) : Codec α where
  enc := c.enc
  dec
    | .obj ms => c.dec (.obj ms)
    | _ => none
  absent := none
  ok := c.ok
  flaw := c.flaw
  dec_enc a ha := by
    obtain ⟨ms, hms⟩ := h a
    simp only [hms]
    rw [← hms, c.dec_enc a ha]
  ok_of_dec j a hj := by
    cases j with
    | obj ms => exact c.ok_of_dec _ _ hj
    | _ => cases hj
  ok_of_absent _ h := by cases h
  dec_flaw j hj := by
    cases j with
    | obj ms => exact c.dec_flaw _ hj
    | _ => rfl

/-- A variant without data of an enumeration that is tagged internally: whatever else an
object holds besides the tag is passed over. -/
def ignored : Codec Unit where
  enc _ := .obj []
  dec
    | .obj _ => some ()
    | .arr [] => some ()
    | _ => none
  absent := none
  ok _ := True
  flaw _ := False
  dec_enc _ _ := rfl
  ok_of_dec _ _ _ := trivial
  ok_of_absent _ h := by cases h
  dec_flaw _ h := h.elim

/-! ### Enumerations with data -/

/-- A variant of an enumeration: its name, and the codec of the data it carries. -/
structure Variant (α : Type) : Type 1 where
  /-- The type of the data. -/
  {β : Type}
  name : String
  codec : Codec β
  inj : β → α

/-- The variants of an enumeration, and every value as one of them. -/
structure Variants (α : Type) : Type 1 where
  all : List (Variant α)
  /-- The variant of a value and its data. -/
  view : α → Σ v : Variant α, v.β
  inj_view : ∀ a, (view a).1.inj (view a).2 = a
  view_inj : ∀ v ∈ all, ∀ b, view (v.inj b) = ⟨v, b⟩
  find_view : ∀ a, all.find? (fun v => v.name == (view a).1.name) = some (view a).1

namespace Variants

variable (vs : Variants α)

/-- The data of a value can be carried. -/
def ok (vs : Variants α) (a : α) : Prop := (vs.view a).1.codec.ok (vs.view a).2

/-- The JSON value of the data. -/
def enc (vs : Variants α) (a : α) : Json := (vs.view a).1.codec.enc (vs.view a).2

/-- Read the data of the variant of a name. -/
def dec (vs : Variants α) (name : String) (j : Json) : Option α :=
  (vs.all.find? fun v => v.name == name).bind fun v => (v.codec.dec j).map v.inj

/-- The data of the variant of a name has a flaw. -/
def flaw (vs : Variants α) (name : String) (j : Json) : Prop :=
  ∃ v, vs.all.find? (fun v => v.name == name) = some v ∧ v.codec.flaw j

theorem dec_enc (h : vs.ok a) : vs.dec (vs.view a).1.name (vs.enc a) = some a := by
  rw [dec, vs.find_view a, Option.bind_some, enc, (vs.view a).1.codec.dec_enc _ h,
    Option.map_some, vs.inj_view]

theorem ok_of_dec (h : vs.dec name j = some a) : vs.ok a := by
  obtain ⟨v, hv, hdec⟩ := Option.bind_eq_some_iff.mp h
  obtain ⟨b, hb, rfl⟩ := Option.map_eq_some_iff.mp hdec
  have hview := vs.view_inj v (List.mem_of_find?_eq_some hv) b
  unfold ok
  rw [hview]
  exact v.codec.ok_of_dec j b hb

theorem dec_flaw (h : vs.flaw name j) : vs.dec name j = none := by
  obtain ⟨v, hv, hflaw⟩ := h
  rw [dec, hv, Option.bind_some, v.codec.dec_flaw j hflaw, Option.map_none]

end Variants

/-- The two members of an adjacently tagged enumeration. -/
def tagFields (tag content : String) : Fields (String × Json × Unit) :=
  .cons tag string (.cons content raw .nil)

/-- **An adjacently tagged enumeration**: an object with the name of the variant under
one key and its data under another. -/
def tagged (tag content : String) (hne : tag ≠ content) (vs : Variants α) : Codec α where
  enc a := .obj [(tag, .str (vs.view a).1.name), (content, vs.enc a)]
  dec j := (decFields (tagFields tag content) j).bind fun t => vs.dec t.1 t.2.1
  absent := none
  ok := vs.ok
  flaw j :=
    (∃ ms, j = .obj ms ∧ ∃ m ∈ ms, m.1 ≠ tag ∧ m.1 ≠ content) ∨
    (∃ t, decFields (tagFields tag content) j = some t ∧ vs.flaw t.1 t.2.1)
  dec_enc a h := by
    have hcodec := (struct (tagFields tag content) (Equiv.refl _) (by
      simpa [tagFields, Fields.names] using hne)).dec_enc ((vs.view a).1.name, vs.enc a, ())
      ⟨trivial, trivial, trivial⟩
    simp only [struct, tagFields, Fields.enc, string, raw, Equiv.refl_apply, id,
      Equiv.refl_symm, Option.map_eq_some_iff] at hcodec
    obtain ⟨t, ht, rfl⟩ := hcodec
    simp only [tagFields, string, raw]
    rw [ht, Option.bind_some]
    exact vs.dec_enc h
  ok_of_dec j a h := by
    obtain ⟨t, -, ht⟩ := Option.bind_eq_some_iff.mp h
    exact vs.ok_of_dec ht
  ok_of_absent _ h := by cases h
  dec_flaw j h := by
    rcases h with ⟨ms, rfl, m, hm, htag, hcontent⟩ | ⟨t, ht, hflaw⟩
    · rw [decFields, if_neg, Option.bind_none]
      rintro ⟨-, hall⟩
      have := hall m hm
      simp only [tagFields, Fields.names, List.mem_cons, List.not_mem_nil, or_false] at this
      exact this.elim htag hcontent
    · rw [ht, Option.bind_some, vs.dec_flaw hflaw]

/-- The tag of an object, and the object without it; or the first item of an array, and
the items after it. -/
def splitTag (tag : String) : Json → Option (String × Json)
  | .obj ms =>
    match ms.filter fun m => m.1 == tag with
    | [(_, .str name)] => some (name, .obj (ms.filter fun m => m.1 != tag))
    | _ => none
  | .arr (.str name :: js) => some (name, .arr js)
  | _ => none

/-- Put a tag in front of the members of an object. -/
def addTag (tag name : String) : Json → Json
  | .obj ms => .obj ((tag, .str name) :: ms)
  | j => j

theorem splitTag_addTag {tag name : String} (h : ∀ m ∈ ms, m.1 ≠ tag) :
    splitTag tag (addTag tag name (.obj ms)) = some (name, .obj ms) := by
  have hnone : ms.filter (fun m => m.1 == tag) = [] :=
    List.filter_eq_nil_iff.mpr fun m hm => by simpa using h m hm
  have hall : ms.filter (fun m => m.1 != tag) = ms :=
    List.filter_eq_self.mpr fun m hm => by simpa using h m hm
  simp [splitTag, addTag, hnone, hall]

/-- **An internally tagged enumeration**: the name of the variant stands under a key
among the fields of its data. -/
def internal (tag : String) (vs : Variants α)
    (hobj : ∀ a, ∃ ms, vs.enc a = .obj ms ∧ ∀ m ∈ ms, m.1 ≠ tag) : Codec α where
  enc a := addTag tag (vs.view a).1.name (vs.enc a)
  dec j := (splitTag tag j).bind fun t => vs.dec t.1 t.2
  absent := none
  ok := vs.ok
  flaw j := ∃ t, splitTag tag j = some t ∧ vs.flaw t.1 t.2
  dec_enc a h := by
    obtain ⟨ms, hms, hne⟩ := hobj a
    rw [hms, splitTag_addTag hne, Option.bind_some, ← hms]
    exact vs.dec_enc h
  ok_of_dec j a h := by
    obtain ⟨t, -, ht⟩ := Option.bind_eq_some_iff.mp h
    exact vs.ok_of_dec ht
  ok_of_absent _ h := by cases h
  dec_flaw j h := by
    obtain ⟨t, ht, hflaw⟩ := h
    rw [ht, Option.bind_some, vs.dec_flaw hflaw]

end Codec

end Rivloom
