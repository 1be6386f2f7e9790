import Rivloom.Lib.CodecSize
import Rivloom.Lib.JsonPretty

/-!
# Records that are read leniently

The codec of a record (`Rivloom.Codec.struct`) refuses a field that the record does not
have. This is the codec of the records that do not: `Rivloom.Codec.record` passes over a
field it does not know – whatever it holds, however often it stands there – and still
refuses one of its own fields twice. A field may be given a default, which is taken where
the field is missing, from an object as well as from the end of an array; and a field may
be left out when it is written, as long as its default brings it back.

The machine integers come with their codecs, and those carry every value of their type.
-/

namespace Rivloom

namespace Codec

variable {α β : Type}

/-! ### The fields of a lenient record -/

/-- The fields of a record that is read leniently, in the order they are written. -/
inductive Slots : Type → Type 1
  /-- No field is left. -/
  | nil : Slots Unit
  /-- One field, its default, the values it is left out for, and the fields after it. -/
  | cons {α β : Type} (name : String) (c : Codec α) (default : Option α) (skip : α → Bool)
      (ok_default : ∀ a, default = some a → c.ok a)
      (default_of_skip : ∀ a, skip a = true → default = some a) (rest : Slots β) : Slots (α × β)

namespace Slots

variable {τ : Type} {t : τ} (f : Slots τ)

theorem ok_of_none (c : Codec α) (a : α) : none = some a → c.ok a := nofun

theorem default_of_never (a : α) : false = true → none = some a := nofun

/-- A field that is always written and has no default. -/
def field (name : String) (c : Codec α) (rest : Slots β) : Slots (α × β) :=
  .cons name c none (fun _ => false) (ok_of_none c) default_of_never rest

/-- The names of the fields. -/
def names : {τ : Type} → Slots τ → List String
  | _, .nil => []
  | _, .cons name _ _ _ _ _ rest => name :: rest.names

/-- The members written for the fields. -/
def enc : {τ : Type} → Slots τ → τ → List (String × Json)
  | _, .nil, _ => []
  | _, .cons name c _ skip _ _ rest, (a, b) =>
    if skip a then rest.enc b else (name, c.enc a) :: rest.enc b

/-- Read the fields of an object through the value it holds for each name. -/
def decObj : {τ : Type} → Slots τ → (String → Option Json) → Option τ
  | _, .nil, _ => some ()
  | _, .cons name c default _ _ _ rest, look =>
    match (match look name with
      | some j => c.dec j
      | none => default.or c.absent) with
    | some a => (rest.decObj look).map fun b => (a, b)
    | none => none

/-- Read the fields of an array that lists them in order; those at the end may be missing
if they have a default. -/
def decArr : {τ : Type} → Slots τ → List Json → Option τ
  | _, .nil, [] => some ()
  | _, .nil, _ :: _ => none
  | _, .cons _ _ default _ _ _ rest, [] =>
    match default with
    | some a => (rest.decArr []).map fun b => (a, b)
    | none => none
  | _, .cons _ c _ _ _ _ rest, j :: js =>
    match c.dec j with
    | some a => (rest.decArr js).map fun b => (a, b)
    | none => none

/-- The values the fields can carry. -/
def ok : {τ : Type} → Slots τ → τ → Prop
  | _, .nil, _ => True
  | _, .cons _ c _ _ _ _ rest, (a, b) => c.ok a ∧ rest.ok b

theorem ok_of_decObj {look : String → Option Json} (h : f.decObj look = some t) : f.ok t := by
  induction f with
  | nil => trivial
  | cons name c default skip hdefault hskip rest ih =>
    obtain ⟨a, b⟩ := t
    simp only [decObj] at h
    split at h
    · next a' ha' =>
      obtain ⟨b', hb', hpair⟩ := Option.map_eq_some_iff.mp h
      obtain ⟨rfl, rfl⟩ := Prod.mk.inj hpair
      refine ⟨?_, ih hb'⟩
      split at ha'
      · exact c.ok_of_dec _ _ ha'
      · rcases Option.or_eq_some_iff.mp ha' with hdef | ⟨-, habsent⟩
        · exact hdefault _ hdef
        · exact c.ok_of_absent _ habsent
    · cases h

theorem ok_of_decArr {js : List Json} (h : f.decArr js = some t) : f.ok t := by
  induction f generalizing js with
  | nil => trivial
  | cons name c default skip hdefault hskip rest ih =>
    obtain ⟨a, b⟩ := t
    cases js with
    | nil =>
      cases default with
      | some a' =>
        obtain ⟨b', hb', hpair⟩ := Option.map_eq_some_iff.mp h
        obtain ⟨rfl, rfl⟩ := Prod.mk.inj hpair
        exact ⟨hdefault _ rfl, ih hb'⟩
      | none => cases h
    | cons j js =>
      simp only [decArr] at h
      split at h
      · next a' ha' =>
        obtain ⟨b', hb', hpair⟩ := Option.map_eq_some_iff.mp h
        obtain ⟨rfl, rfl⟩ := Prod.mk.inj hpair
        exact ⟨c.ok_of_dec _ _ ha', ih hb'⟩
      · cases h

/-- What is written has names of fields, in their order. -/
theorem map_fst_enc_sublist (t : τ) : ((f.enc t).map Prod.fst).Sublist f.names := by
  induction f with
  | nil => exact List.Sublist.slnil
  | cons name c default skip hdefault hskip rest ih =>
    obtain ⟨a, b⟩ := t
    rw [enc, names]
    split
    · exact (ih b).cons name
    · exact (ih b).cons_cons name

theorem look_enc_of_not_mem (t : τ) {name : String} (h : name ∉ f.names) :
    look (f.enc t) name = none := by
  rw [look, List.lookup_eq_none_iff]
  intro m hm
  have hmem : m.1 ∈ f.names := (f.map_fst_enc_sublist t).subset (List.mem_map_of_mem hm)
  rw [bne_iff_ne]
  rintro rfl
  exact h hmem

/-- The fields are read back through any view that shows what was written for them. -/
theorem decObj_of_look (hnames : f.names.Nodup) {view : String → Option Json} (hok : f.ok t)
    (h : ∀ name ∈ f.names, view name = look (f.enc t) name) : f.decObj view = some t := by
  induction f with
  | nil => rfl
  | cons name c default skip hdefault hskip rest ih =>
    obtain ⟨a, b⟩ := t
    rw [names, List.nodup_cons] at hnames
    have hrest : ∀ n ∈ rest.names, view n = look (rest.enc b) n := by
      intro n hn
      have hne : n ≠ name := by
        rintro rfl
        exact hnames.1 hn
      rw [h n (List.mem_cons_of_mem _ hn), enc]
      split
      · rfl
      · rw [look, List.lookup_cons, beq_eq_false_iff_ne.mpr hne, look]
    have hname := h name List.mem_cons_self
    rw [enc] at hname
    simp only [decObj, ih hnames.2 hok.2 hrest, Option.map_some]
    cases hs : skip a with
    | true =>
      rw [if_pos hs, look_enc_of_not_mem rest b hnames.1] at hname
      simp only [hname, hskip a hs, Option.some_or]
    | false =>
      rw [if_neg (by simp [hs]), look, List.lookup_cons, beq_self_eq_true] at hname
      simp only [hname, c.dec_enc a hok.1]

end Slots

/-! ### Lenient records -/

/-- Read the fields of a lenient record from an object or from an array. -/
def decSlots {τ : Type} (f : Slots τ) : Json → Option τ
  | .obj ms =>
    if ((ms.map Prod.fst).filter (· ∈ f.names)).Nodup then f.decObj (look ms) else none
  | .arr js => f.decArr js
  | _ => none

/-- **A record that is read leniently**: an object with the fields, none of them twice,
and anything else besides; or an array of the fields in order. -/
def record {τ : Type} (f : Slots τ) (e : α ≃ τ) (hnames : f.names.Nodup) : Codec α where
  enc a := .obj (f.enc (e a))
  dec j := (decSlots f j).map e.symm
  absent := none
  ok a := f.ok (e a)
  flaw _ := False
  dec_enc a h := by
    have hnodup : (((f.enc (e a)).map Prod.fst).filter (· ∈ f.names)).Nodup :=
      ((f.map_fst_enc_sublist (e a)).nodup hnames).filter _
    rw [decSlots, if_pos hnodup, f.decObj_of_look hnames h fun _ _ => rfl, Option.map_some,
      e.symm_apply_apply]
  ok_of_dec j a h := by
    obtain ⟨t, ht, rfl⟩ := Option.map_eq_some_iff.mp h
    rw [e.apply_symm_apply]
    cases j with
    | obj ms =>
      rw [decSlots] at ht
      split at ht
      · exact f.ok_of_decObj ht
      · cases ht
    | arr js => exact f.ok_of_decArr ht
    | _ => cases ht
  ok_of_absent _ h := by cases h
  dec_flaw _ h := h.elim

/-! ### Machine integers -/

/-- 32-bit unsigned integers. -/
def uint32 : Codec UInt32 :=
  (uint 32).refine (fun n => if h : n < 2 ^ 32 then some (UInt32.ofNatLT n h) else none)
    UInt32.toNat (fun b => by simp [b.toNat_lt]) (fun a b h => by
      split at h
      · cases h
        simp
      · cases h)

/-- 64-bit signed integers. -/
def int64 : Codec Int64 :=
  (sint 64).refine (fun n => if -2 ^ 63 ≤ n ∧ n < 2 ^ 63 then some (Int64.ofInt n) else none)
    Int64.toInt (fun b => by
      rw [if_pos ⟨b.le_toInt, b.toInt_lt⟩, Int64.ofInt_toInt]) (fun a b h => by
      split at h
      · next hrange =>
        cases h
        exact Int64.toInt_ofInt_of_le hrange.1 hrange.2
      · cases h)

/-! ### Codecs that carry every value -/

/-- The bytes of a document on several lines. -/
def toPretty (c : Codec α) (a : α) : ByteArray := (c.enc a).prettyBytes

end Codec

end Rivloom
