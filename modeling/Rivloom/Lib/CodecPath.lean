import Rivloom.Lib.Codec

/-!
# Flaws deep inside a value

A reader that refuses a flaw refuses every value that has it somewhere inside. A path says
where: into a field of a record, an entry of a map or an item of a list, one step after
the other (`Rivloom.Json.Within`). A codec *reaches* another along a path
(`Rivloom.Codec.Reaches`) if what the inner one finds a flaw in, at the end of the path,
is a flaw for the outer one. The codecs of records, lists and checked values reach what
they are made of, so that a path is followed by one rule for each of its steps.

A record may be read from an array of its fields, so a step into a field carries the place
of the field as well as its name.
-/

namespace Rivloom

namespace Json

/-- One step into a value. -/
inductive Step where
  /-- A field of a record: its place among the fields, and its name. -/
  | field (index : ℕ) (name : String)
  /-- Any entry of a map. -/
  | entry
  /-- Any item of a list. -/
  | item
  deriving DecidableEq

/-- **A value inside another one**, at the end of a path. -/
inductive Within : List Step → Json → Json → Prop
  | here (j : Json) : Within [] j j
  | ofObj {index : ℕ} {name : String} {path : List Step} {ms : List (String × Json)} {j v : Json}
      (hmem : (name, j) ∈ ms) (hrest : Within path j v) :
      Within (.field index name :: path) (.obj ms) v
  | ofArr {index : ℕ} {name : String} {path : List Step} {js : List Json} {j v : Json}
      (hmem : js[index]? = some j) (hrest : Within path j v) :
      Within (.field index name :: path) (.arr js) v
  | entry {key : String} {path : List Step} {ms : List (String × Json)} {j v : Json}
      (hmem : (key, j) ∈ ms) (hrest : Within path j v) : Within (.entry :: path) (.obj ms) v
  | item {path : List Step} {js : List Json} {j v : Json} (hmem : j ∈ js)
      (hrest : Within path j v) : Within (.item :: path) (.arr js) v

end Json

namespace Codec

variable {α β γ : Type} {c : Codec α} {path : List Json.Step} {name : String} {d : Codec β}
  {index : ℕ} {τ : Type} {f : Fields τ} {j : Json}

/-- The field of a name, at a place. -/
inductive Fields.Has : {τ : Type} → Fields τ → ℕ → String → Codec α → Prop
  | head {τ : Type} (name : String) (c : Codec α) (rest : Fields τ) :
    Has (.cons name c rest) 0 name c
  | tail {σ τ : Type} {name name' : String} {c : Codec α} {c' : Codec σ} {rest : Fields τ}
      {index : ℕ} (h : Has rest index name c) : Has (.cons name' c' rest) (index + 1) name c

/-- A flaw in a field is a flaw among the members of an object. -/
theorem Fields.Has.flawIn (h : f.Has index name c) {ms : List (String × Json)}
    (hmem : (name, j) ∈ ms) (hflaw : c.flaw j) : f.flawIn ms := by
  induction h with
  | head => exact Or.inl ⟨j, hmem, hflaw⟩
  | tail _ ih => exact Or.inr (ih hmem hflaw)

/-- A flaw in a field is a flaw among the items of an array. -/
theorem Fields.Has.flawAt (h : f.Has index name c) {js : List Json} (hmem : js[index]? = some j)
    (hflaw : c.flaw j) : f.flawAt js := by
  induction h generalizing js with
  | head =>
    cases js with
    | nil => cases hmem
    | cons x xs =>
      obtain rfl := Option.some.inj hmem
      exact Or.inl hflaw
  | tail _ ih =>
    cases js with
    | nil => cases hmem
    | cons x xs => exact Or.inr (ih hmem hflaw)

/-- **A codec reaches another one along a path**: flaws at its end are flaws. -/
def Reaches (c : Codec α) (path : List Json.Step) (d : Codec β) : Prop :=
  ∀ j v : Json, Json.Within path j v → d.flaw v → c.flaw j

theorem Reaches.here (c : Codec α) : c.Reaches [] c := by
  intro j v hwithin hflaw
  cases hwithin
  exact hflaw

/-- Into a field of a record. -/
theorem Reaches.struct {e : γ ≃ τ} {hnames : f.names.Nodup} (hfield : f.Has index name c)
    (h : c.Reaches path d) : (Codec.struct f e hnames).Reaches (.field index name :: path) d := by
  intro j v hwithin hflaw
  cases hwithin with
  | ofObj hmem hrest => exact Or.inl ⟨_, rfl, Or.inr (hfield.flawIn hmem (h _ _ hrest hflaw))⟩
  | ofArr hmem hrest => exact Or.inr ⟨_, rfl, hfield.flawAt hmem (h _ _ hrest hflaw)⟩

/-- Into an item of a list. -/
theorem Reaches.list (h : c.Reaches path d) : (Codec.list c).Reaches (.item :: path) d := by
  intro j v hwithin hflaw
  cases hwithin with
  | item hmem hrest => exact ⟨_, rfl, _, hmem, h _ _ hrest hflaw⟩

/-- An optional record. -/
theorem Reaches.option {hnull : ∀ a, c.enc a ≠ .null} (h : c.Reaches path d) (hflaw : ¬c.flaw .null)
    : (Codec.option c hnull).Reaches path d := by
  intro j v hwithin hv
  refine ⟨?_, h j v hwithin hv⟩
  rintro rfl
  exact hflaw (h _ v hwithin hv)

end Codec

end Rivloom
