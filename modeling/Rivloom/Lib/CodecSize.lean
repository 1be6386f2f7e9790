import Rivloom.Lib.Codec
import Mathlib.Data.Nat.Digits.Defs

/-!
# How large the JSON of a value is

Bounds on `Rivloom.Json.size`, assembled along the codecs. What a record takes is what
the names of its fields take (`Rivloom.Codec.Fields.namesSize`, a number that depends on
the record type alone) and what the values of its fields take
(`Rivloom.Codec.Fields.valuesSize`), so that the bound of a record is a sum of bounds of
its fields; a list or a map takes at most the sum over its entries.

At the bottom are the scalars: a number below `10 ^ e` takes at most `e` bytes, and a
string of characters that need no escape takes two bytes more than it has.
-/

namespace Rivloom

variable {n : ℤ} {w : ℕ}

namespace Json

/-- A string whose characters need no escape takes two bytes more than it has. -/
theorem quoteSize_of_plain {s : String} (h : ∀ c ∈ s.toList, escape c = [c]) :
    quoteSize s = 2 + s.utf8ByteSize := by
  have hmap : s.toList.map escapeSize = s.toList.map Char.utf8Size := by
    refine List.map_congr_left fun c hc => ?_
    rw [escapeSize, h c hc, byteLength_cons, byteLength_nil, Nat.add_zero]
  rw [quoteSize, hmap, ← byteLength, byteLength_toList]

theorem quoteSize_append (s t : String) : quoteSize (s ++ t) + 2 = quoteSize s + quoteSize t := by
  rw [quoteSize, quoteSize, quoteSize, String.toList_append, List.map_append, List.sum_append]
  omega

/-- The size of a string that repeats one character. -/
theorem quoteSize_replicate (n : ℕ) (c : Char) :
    quoteSize (String.ofList (List.replicate n c)) = 2 + n * escapeSize c := by
  rw [quoteSize, String.toList_ofList, List.map_replicate, List.sum_replicate]
  rfl

/-- A letter, a digit, a hyphen and an underscore need no escape. -/
theorem escape_of_idChar {c : Char} (h : c.isAlphanum = true ∨ c = '-' ∨ c = '_') :
    escape c = [c] := by
  have hrange : 32 ≤ c.toNat ∧ c.toNat ≠ 34 ∧ c.toNat ≠ 92 := by
    rcases h with h | rfl | rfl
    · rcases Bool.or_eq_true_iff.mp h with h | h
      · -- a letter
        rcases Bool.or_eq_true_iff.mp h with h | h
        · have hupper : 65 ≤ c.toNat ∧ c.toNat ≤ 90 := of_decide_eq_true h
          omega
        · obtain ⟨hlow, hhigh⟩ := Bool.and_eq_true_iff.mp h
          have hlow : 97 ≤ c.toNat := of_decide_eq_true hlow
          have hhigh : c.toNat ≤ 122 := of_decide_eq_true hhigh
          omega
      · obtain ⟨hlow, hhigh⟩ := Bool.and_eq_true_iff.mp h
        have hlow : 48 ≤ c.toNat := of_decide_eq_true hlow
        have hhigh : c.toNat ≤ 57 := of_decide_eq_true hhigh
        omega
    · decide
    · decide
  rcases escape_cases c with ⟨d, -, -, -, -, hd⟩ | ⟨hc, -⟩ | ⟨-, -, -, he⟩
  · -- the characters with a two-character escape are control characters, the quote and the
    -- backslash
    have hall : ∀ d, unescape d = some c → c.toNat < 32 ∨ c.toNat = 34 ∨
        c.toNat = 92 ∨ c = '/' := by
      intro d hd
      unfold unescape at hd
      split_ifs at hd <;> cases hd <;> decide
    rcases hall d hd with h1 | h1 | h1 | rfl
    · omega
    · omega
    · omega
    · rfl
  · omega
  · exact he

/-- A number below `10 ^ e` takes at most `e` bytes. -/
theorem intSize_le {e : ℕ} (he : 0 < e) (h0 : 0 ≤ n) (h : n < 10 ^ e) : intSize n ≤ e := by
  obtain ⟨m, rfl⟩ := Int.eq_ofNat_of_zero_le h0
  exact Nat.toDigits_length 10 m e he (by exact_mod_cast h)

theorem size_obj_le (ms : List (String × Json)) : size (.obj ms) ≤ 2 + membersSize ms := by
  cases ms with
  | nil => simp [size]
  | cons m ms =>
    rw [size, membersSize]
    omega

theorem size_arr_le (xs : List Json) : size (.arr xs) ≤ 2 + itemsSize xs := by
  cases xs with
  | nil => simp [size]
  | cons x xs =>
    rw [size, itemsSize]
    omega

/-- The members of an object take at most the sum of what each may take. -/
theorem membersSize_map_le {β : Type} {l : List β} {f : β → String × Json} {w : β → ℕ}
    (h : ∀ x ∈ l, 2 + quoteSize (f x).1 + size (f x).2 ≤ w x) :
    membersSize (l.map f) ≤ (l.map w).sum := by
  induction l with
  | nil => exact Nat.le_refl 0
  | cons x l ih =>
    have hx := h x List.mem_cons_self
    have hl := ih fun y hy => h y (List.mem_cons_of_mem _ hy)
    rw [List.map_cons, membersSize, List.map_cons, List.sum_cons]
    omega

/-- The items of an array take at most as many times the bound of one. -/
theorem itemsSize_le {xs : List Json} (h : ∀ x ∈ xs, size x ≤ w) :
    itemsSize xs ≤ xs.length * (1 + w) := by
  induction xs with
  | nil => simp [itemsSize]
  | cons x xs ih =>
    have hx := h x List.mem_cons_self
    have hxs := ih fun y hy => h y (List.mem_cons_of_mem _ hy)
    rw [itemsSize, List.length_cons, Nat.add_mul, Nat.one_mul]
    omega

end Json

namespace Codec

variable {α : Type} {c : Codec α} {τ : Type}

namespace Fields

variable {τ : Type}

/-- What the names of the fields take, with the marks around them. -/
def namesSize (f : Fields τ) : ℕ := (f.names.map fun name => 2 + Json.quoteSize name).sum

/-- What the values of the fields take. -/
def valuesSize : {τ : Type} → Fields τ → τ → ℕ
  | _, .nil, _ => 0
  | _, .cons _ c rest, (a, b) => (c.enc a).size + rest.valuesSize b

theorem membersSize_enc (f : Fields τ) (t : τ) :
    Json.membersSize (f.enc t) = f.namesSize + f.valuesSize t := by
  induction f with
  | nil => rfl
  | cons name c rest ih =>
    obtain ⟨a, b⟩ := t
    rw [enc, Json.membersSize, ih b, valuesSize, namesSize, namesSize, names, List.map_cons,
      List.sum_cons]
    omega

end Fields

/-- **The size of a record**, if it has any fields. -/
theorem size_struct (f : Fields τ) (e : α ≃ τ) (hnames : f.names.Nodup) (hne : f.names ≠ []) (a : α)
    :
    ((struct f e hnames).enc a).size = 1 + f.namesSize + f.valuesSize (e a) := by
  have h := f.membersSize_enc (e a)
  change (Json.obj (f.enc (e a))).size = _
  cases f with
  | nil => exact absurd rfl hne
  | cons name c rest =>
    rw [Fields.enc, Json.membersSize] at h
    rw [Fields.enc, Json.size]
    omega

/-- **The size of a record** is bounded through the names and the values of its fields. -/
theorem size_struct_le {N n : ℕ} (f : Fields τ) (e : α ≃ τ) (hnames : f.names.Nodup) (a : α)
    (hn : f.namesSize ≤ n) (hN : 2 + n + f.valuesSize (e a) ≤ N) :
    ((struct f e hnames).enc a).size ≤ N := by
  have h := Json.size_obj_le (f.enc (e a))
  rw [f.membersSize_enc] at h
  change (Json.obj (f.enc (e a))).size ≤ N
  omega

/-- **The size of an adjacently tagged value**: its data, its two keys and its name. -/
theorem size_tagged (tag content : String) (hne : tag ≠ content) (vs : Variants α) (a : α) :
    ((tagged tag content hne vs).enc a).size =
      5 + Json.quoteSize tag + Json.quoteSize (vs.view a).1.name + Json.quoteSize content +
        (vs.enc a).size := by
  change (Json.obj [(tag, .str (vs.view a).1.name), (content, vs.enc a)]).size = _
  simp only [Json.size, Json.membersSize]
  omega

@[simp] theorem size_string (s : String) : (string.enc s).size = Json.quoteSize s := by
  rw [string, Json.size]

theorem size_bool_le (b : Bool) : (bool.enc b).size ≤ 5 := by
  cases b <;> simp [bool, Json.size]

theorem size_uint_le {width n e : ℕ} (he : 0 < e) (h : n < 10 ^ e) :
    ((uint width).enc n).size ≤ e := by
  rw [uint, Json.size]
  exact Json.intSize_le he (Int.natCast_nonneg n) (by exact_mod_cast h)

theorem size_sint_le {width e : ℕ} (he : 0 < e) (h0 : 0 ≤ n) (h : n < 10 ^ e) :
    ((sint width).enc n).size ≤ e := by
  rw [sint, Json.size]
  exact Json.intSize_le he h0 h

/-- An optional value takes what the value takes, or four bytes. -/
theorem size_option_le {hnull : ∀ a, c.enc a ≠ .null} {o : Option α} {N : ℕ} (hN : 4 ≤ N)
    (h : ∀ a, o = some a → (c.enc a).size ≤ N) : ((option c hnull).enc o).size ≤ N := by
  cases o with
  | none => simpa [option, Json.size] using hN
  | some a => exact h a rfl

theorem size_list_le {as : List α} (h : ∀ a ∈ as, (c.enc a).size ≤ w) :
    ((list c).enc as).size ≤ 2 + as.length * (1 + w) := by
  have hitems : Json.itemsSize (as.map c.enc) ≤ (as.map c.enc).length * (1 + w) := by
    refine Json.itemsSize_le fun x hx => ?_
    obtain ⟨a, ha, rfl⟩ := List.mem_map.mp hx
    exact h a ha
  rw [List.length_map] at hitems
  have harr := Json.size_arr_le (as.map c.enc)
  change (Json.arr (as.map c.enc)).size ≤ _
  omega

end Codec

end Rivloom
