import Mathlib.Tactic.Common
import Mathlib.Algebra.GroupWithZero.Nat
import Mathlib.Algebra.Order.BigOperators.Group.List

/-!
# JSON values and their compact text

The values a JSON text denotes, and the compact printer that writes them: no
blanks, integers in decimal, strings with the two-character escapes where JSON has
one and `\u00xx` for the other control characters. An object keeps its members in
the order they are written and keeps a repeated key twice – it is the reader of the
object who decides what a repetition means.

Two facts about the text are used again and again. Its length in bytes is a sum
over the value (`Rivloom.Json.size`, `Rivloom.Json.byteLength_text`), so the size of
a document is computed from the sizes of its parts. And it never holds a raw control
character (`Rivloom.Json.text_noControl`), so putting one text inside a string of
another at most doubles it (`Rivloom.Json.quoteSize_le_two_mul`).
-/

namespace Rivloom

variable {cs : List Char} {c : Char} (s : String)

/-! ### Lengths in bytes -/

/-- The number of bytes of a text in UTF-8. -/
def byteLength (cs : List Char) : ℕ := (cs.map Char.utf8Size).sum

@[simp] theorem byteLength_nil : byteLength [] = 0 := rfl

@[simp] theorem byteLength_cons (c : Char) (cs : List Char) :
    byteLength (c :: cs) = c.utf8Size + byteLength cs := rfl

@[simp] theorem byteLength_append (cs ds : List Char) :
    byteLength (cs ++ ds) = byteLength cs + byteLength ds := by
  simp [byteLength]

/-- A character of one byte in front of a text. -/
theorem byteLength_cons_one (h : c.utf8Size = 1) : byteLength (c :: cs) = 1 + byteLength cs := by
  rw [byteLength_cons, h]

theorem utf8ByteSize_ofList (cs : List Char) : (String.ofList cs).utf8ByteSize = byteLength cs := by
  induction cs with
  | nil => rfl
  | cons c cs ih =>
    have hcons : String.ofList (c :: cs) = String.singleton c ++ String.ofList cs := by
      rw [String.singleton_eq_ofList, ← String.ofList_append]
      rfl
    rw [hcons, String.utf8ByteSize_append, ih, String.utf8ByteSize_singleton, byteLength_cons]

theorem byteLength_toList : byteLength s.toList = s.utf8ByteSize := by
  rw [← utf8ByteSize_ofList, String.ofList_toList]

/-- A character below 128 takes one byte. -/
theorem utf8Size_eq_one (h : c.toNat < 128) : c.utf8Size = 1 := by
  have hc : c.val ≤ 127 := by
    have : c.val.toNat < 128 := h
    rw [UInt32.le_iff_toNat_le]
    simp only [UInt32.reduceToNat]
    omega
  simp [Char.utf8Size, hc]

theorem byteLength_eq_length (h : ∀ c ∈ cs, c.toNat < 128) : byteLength cs = cs.length := by
  induction cs with
  | nil => rfl
  | cons c cs ih =>
    rw [byteLength_cons, utf8Size_eq_one (h c (by simp)), ih fun d hd => h d (by simp [hd]),
      List.length_cons]
    omega

/-! ### Values -/

/-- A JSON value. Numbers are integers: a number with a fraction or an exponent is
a float, and none of the formats read here has a float in it. -/
inductive Json where
  | null : Json
  | bool : Bool → Json
  | num : ℤ → Json
  | str : String → Json
  | arr : List Json → Json
  /-- The members of an object, in the order written; keys may repeat. -/
  | obj : List (String × Json) → Json

namespace Json

variable (n : ℤ)

/-! ### The printer -/

/-- A hexadecimal digit. -/
def hexDigit (n : ℕ) : Char := n.digitChar

/-- The characters that stand for one character inside a quoted string. -/
def escape (c : Char) : List Char :=
  if c = '"' then ['\\', '"']
  else if c = '\\' then ['\\', '\\']
  else if c = '\x08' then ['\\', 'b']
  else if c = '\x0c' then ['\\', 'f']
  else if c = '\n' then ['\\', 'n']
  else if c = '\r' then ['\\', 'r']
  else if c = '\t' then ['\\', 't']
  else if c.toNat < 32 then ['\\', 'u', '0', '0', hexDigit (c.toNat / 16), hexDigit (c.toNat % 16)]
  else [c]

/-- The character a two-character escape stands for. -/
def unescape (c : Char) : Option Char :=
  if c = '"' then some '"'
  else if c = '\\' then some '\\'
  else if c = '/' then some '/'
  else if c = 'b' then some '\x08'
  else if c = 'f' then some '\x0c'
  else if c = 'n' then some '\n'
  else if c = 'r' then some '\r'
  else if c = 't' then some '\t'
  else none

/-- A quoted string. -/
def quote (s : String) : List Char := '"' :: (s.toList.flatMap escape ++ ['"'])

/-- An integer in decimal. -/
def intText : ℤ → List Char
  | .ofNat n => Nat.toDigits 10 n
  | .negSucc n => '-' :: Nat.toDigits 10 (n + 1)

mutual

/-- The compact text of a value. -/
def text : Json → List Char
  | .null => ['n', 'u', 'l', 'l']
  | .bool true => ['t', 'r', 'u', 'e']
  | .bool false => ['f', 'a', 'l', 's', 'e']
  | .num n => intText n
  | .str s => quote s
  | .arr [] => ['[', ']']
  | .arr (x :: xs) => '[' :: (text x ++ (itemsText xs ++ [']']))
  | .obj [] => ['{', '}']
  | .obj ((k, v) :: ms) => '{' :: (quote k ++ ':' :: (text v ++ (membersText ms ++ ['}'])))

/-- The items of an array after the first, each behind its comma. -/
def itemsText : List Json → List Char
  | [] => []
  | x :: xs => ',' :: (text x ++ itemsText xs)

/-- The members of an object after the first, each behind its comma. -/
def membersText : List (String × Json) → List Char
  | [] => []
  | (k, v) :: ms => ',' :: (quote k ++ ':' :: (text v ++ membersText ms))

end

/-- The text of a value as bytes. -/
def bytes (j : Json) : ByteArray := (String.ofList j.text).toByteArray

/-! ### Sizes -/

/-- The number of bytes one character takes inside a quoted string. -/
def escapeSize (c : Char) : ℕ := byteLength (escape c)

/-- The number of bytes of a quoted string. -/
def quoteSize (s : String) : ℕ := 2 + (s.toList.map escapeSize).sum

/-- The number of characters of an integer. -/
def intSize (n : ℤ) : ℕ := (intText n).length

mutual

/-- **The size of a value**: the number of bytes of its compact text. -/
def size : Json → ℕ
  | .null => 4
  | .bool true => 4
  | .bool false => 5
  | .num n => intSize n
  | .str s => quoteSize s
  | .arr [] => 2
  | .arr (x :: xs) => 2 + size x + itemsSize xs
  | .obj [] => 2
  | .obj ((k, v) :: ms) => 3 + quoteSize k + size v + membersSize ms

/-- The size of the items of an array after the first. -/
def itemsSize : List Json → ℕ
  | [] => 0
  | x :: xs => 1 + size x + itemsSize xs

/-- The size of the members of an object after the first. -/
def membersSize : List (String × Json) → ℕ
  | [] => 0
  | (k, v) :: ms => 2 + quoteSize k + size v + membersSize ms

end

theorem byteLength_flatMap_escape (cs : List Char) :
    byteLength (cs.flatMap escape) = (cs.map escapeSize).sum := by
  induction cs with
  | nil => rfl
  | cons c cs ih => simp [escapeSize, ih]

@[simp] theorem byteLength_quote : byteLength (quote s) = quoteSize s := by
  rw [quote, quoteSize, byteLength_cons_one rfl, byteLength_append, byteLength_flatMap_escape,
    byteLength_cons_one rfl, byteLength_nil]
  omega

theorem intText_ascii : ∀ c ∈ intText n, c.isDigit = true ∨ c = '-' := by
  intro c hc
  cases n with
  | ofNat n => exact Or.inl (Nat.isDigit_of_mem_toDigits (by omega) (by omega) hc)
  | negSucc n =>
    rcases List.mem_cons.mp hc with rfl | hc
    · exact Or.inr rfl
    · exact Or.inl (Nat.isDigit_of_mem_toDigits (by omega) (by omega) hc)

theorem toNat_of_isDigit (h : c.isDigit = true) : 48 ≤ c.toNat ∧ c.toNat ≤ 57 :=
  Char.isDigit_iff_toNat.mp h

@[simp] theorem byteLength_intText : byteLength (intText n) = intSize n := by
  refine byteLength_eq_length fun c hc => ?_
  rcases intText_ascii n c hc with h | rfl
  · have := toNat_of_isDigit h
    omega
  · decide

mutual

/-- **The length of the text is the size of the value.** -/
theorem byteLength_text : ∀ j : Json, byteLength (text j) = size j
  | .null => rfl
  | .bool true => rfl
  | .bool false => rfl
  | .num n => byteLength_intText n
  | .str s => byteLength_quote s
  | .arr [] => rfl
  | .arr (x :: xs) => by
    rw [text, size, byteLength_cons_one rfl, byteLength_append, byteLength_append,
      byteLength_text x, byteLength_itemsText xs, byteLength_cons_one rfl, byteLength_nil]
    omega
  | .obj [] => rfl
  | .obj ((k, v) :: ms) => by
    rw [text, size, byteLength_cons_one rfl, byteLength_append, byteLength_quote,
      byteLength_cons_one rfl, byteLength_append, byteLength_append, byteLength_text v,
      byteLength_membersText ms, byteLength_cons_one rfl, byteLength_nil]
    omega

theorem byteLength_itemsText : ∀ xs : List Json, byteLength (itemsText xs) = itemsSize xs
  | [] => rfl
  | x :: xs => by
    rw [itemsText, itemsSize, byteLength_cons_one rfl, byteLength_append, byteLength_text x,
      byteLength_itemsText xs]
    omega

theorem byteLength_membersText :
    ∀ ms : List (String × Json), byteLength (membersText ms) = membersSize ms
  | [] => rfl
  | (k, v) :: ms => by
    rw [membersText, membersSize, byteLength_cons_one rfl, byteLength_append, byteLength_quote,
      byteLength_cons_one rfl, byteLength_append, byteLength_text v, byteLength_membersText ms]
    omega

end

@[simp] theorem size_bytes (j : Json) : j.bytes.size = j.size := by
  rw [bytes, String.size_toByteArray, utf8ByteSize_ofList, byteLength_text]

/-! ### No raw control character -/

/-- No character of a text is a control character below the blank. -/
def NoControl (cs : List Char) : Prop := ∀ c ∈ cs, 32 ≤ c.toNat

theorem NoControl.nil : NoControl [] := by
  intro c hc
  cases hc

theorem NoControl.of_all (h : (cs.all fun c => decide (32 ≤ c.toNat)) = true) : NoControl cs :=
  fun c hc => of_decide_eq_true (List.all_eq_true.mp h c hc)

theorem NoControl.cons (hc : 32 ≤ c.toNat) (hcs : NoControl cs) : NoControl (c :: cs) := by
  intro d hd
  rcases List.mem_cons.mp hd with rfl | hd
  · exact hc
  · exact hcs d hd

theorem NoControl.append {cs ds : List Char} (hcs : NoControl cs) (hds : NoControl ds) :
    NoControl (cs ++ ds) := by
  intro d hd
  rcases List.mem_append.mp hd with hd | hd
  · exact hcs d hd
  · exact hds d hd

theorem hexDigit_toNat {n : ℕ} (h : n < 16) : 32 ≤ (hexDigit n).toNat := by
  have : ∀ m < 16, 32 ≤ (hexDigit m).toNat := by decide
  exact this n h

/-- **The three shapes of an escaped character**: a backslash and a letter, the
four-digit form for the control characters that have no letter, or the character
itself. -/
theorem escape_cases (c : Char) :
    (∃ d, escape c = ['\\', d] ∧ 32 ≤ d.toNat ∧ d.utf8Size = 1 ∧ d ≠ 'u' ∧
      unescape d = some c) ∨
    (c.toNat < 32 ∧
      escape c = ['\\', 'u', '0', '0', hexDigit (c.toNat / 16), hexDigit (c.toNat % 16)]) ∨
    (32 ≤ c.toNat ∧ c ≠ '"' ∧ c ≠ '\\' ∧ escape c = [c]) := by
  unfold escape
  by_cases h1 : c = '"'
  · exact Or.inl ⟨_, if_pos h1, by decide, rfl, by decide, by rw [h1]; rfl⟩
  rw [if_neg h1]
  by_cases h2 : c = '\\'
  · exact Or.inl ⟨_, if_pos h2, by decide, rfl, by decide, by rw [h2]; rfl⟩
  rw [if_neg h2]
  by_cases h3 : c = '\x08'
  · exact Or.inl ⟨_, if_pos h3, by decide, rfl, by decide, by rw [h3]; rfl⟩
  rw [if_neg h3]
  by_cases h4 : c = '\x0c'
  · exact Or.inl ⟨_, if_pos h4, by decide, rfl, by decide, by rw [h4]; rfl⟩
  rw [if_neg h4]
  by_cases h5 : c = '\n'
  · exact Or.inl ⟨_, if_pos h5, by decide, rfl, by decide, by rw [h5]; rfl⟩
  rw [if_neg h5]
  by_cases h6 : c = '\r'
  · exact Or.inl ⟨_, if_pos h6, by decide, rfl, by decide, by rw [h6]; rfl⟩
  rw [if_neg h6]
  by_cases h7 : c = '\t'
  · exact Or.inl ⟨_, if_pos h7, by decide, rfl, by decide, by rw [h7]; rfl⟩
  rw [if_neg h7]
  by_cases h8 : c.toNat < 32
  · exact Or.inr (Or.inl ⟨h8, if_pos h8⟩)
  · exact Or.inr (Or.inr ⟨by omega, h1, h2, if_neg h8⟩)

theorem escape_noControl (c : Char) : NoControl (escape c) := by
  rcases escape_cases c with ⟨e, he, hsize, -⟩ | ⟨hc, he⟩ | ⟨hc, -, -, he⟩
  · rw [he]
    exact .cons (by decide) (.cons hsize .nil)
  · rw [he]
    exact .cons (by decide) (.cons (by decide) (.cons (by decide) (.cons (by decide)
      (.cons (hexDigit_toNat (by omega)) (.cons (hexDigit_toNat (by omega)) .nil)))))
  · rw [he]
    exact .cons hc .nil

theorem quote_noControl : NoControl (quote s) := by
  refine .cons (by decide) (.append (fun d hd => ?_) (.cons (by decide) .nil))
  obtain ⟨c, -, hc⟩ := List.mem_flatMap.mp hd
  exact escape_noControl c d hc

theorem intText_noControl : NoControl (intText n) := by
  intro d hd
  rcases intText_ascii n d hd with h | rfl
  · have := toNat_of_isDigit h
    omega
  · decide

mutual

/-- **The text of a value holds no raw control character.** -/
theorem text_noControl : ∀ j : Json, NoControl (text j)
  | .null => .of_all (by decide)
  | .bool true => .of_all (by decide)
  | .bool false => .of_all (by decide)
  | .num n => intText_noControl n
  | .str s => quote_noControl s
  | .arr [] => .of_all (by decide)
  | .arr (x :: xs) =>
    .cons (by decide) (.append (text_noControl x)
      (.append (itemsText_noControl xs) (.cons (by decide) .nil)))
  | .obj [] => .of_all (by decide)
  | .obj ((k, v) :: ms) =>
    .cons (by decide) (.append (quote_noControl k) (.cons (by decide)
      (.append (text_noControl v) (.append (membersText_noControl ms) (.cons (by decide) .nil)))))

theorem itemsText_noControl : ∀ xs : List Json, NoControl (itemsText xs)
  | [] => .nil
  | x :: xs => .cons (by decide) (.append (text_noControl x) (itemsText_noControl xs))

theorem membersText_noControl : ∀ ms : List (String × Json), NoControl (membersText ms)
  | [] => .nil
  | (k, v) :: ms =>
    .cons (by decide) (.append (quote_noControl k) (.cons (by decide)
      (.append (text_noControl v) (membersText_noControl ms))))

end

/-! ### Quoting -/

/-- A character that is not a control character at most doubles when quoted. -/
theorem escapeSize_le_two_mul (h : 32 ≤ c.toNat) : escapeSize c ≤ 2 * c.utf8Size := by
  have hpos : 0 < c.utf8Size := c.utf8Size_pos
  have hslash : '\\'.utf8Size = 1 := rfl
  rcases escape_cases c with ⟨d, he, -, hd, -⟩ | ⟨hc, -⟩ | ⟨-, -, -, he⟩
  · rw [escapeSize, he, byteLength_cons, byteLength_cons, byteLength_nil, hslash, hd]
    omega
  · omega
  · rw [escapeSize, he, byteLength_cons, byteLength_nil]
    omega

/-- Any character takes at most six bytes for each of its own when quoted. -/
theorem escapeSize_le_six_mul (c : Char) : escapeSize c ≤ 6 * c.utf8Size := by
  have hpos : 0 < c.utf8Size := c.utf8Size_pos
  by_cases h : 32 ≤ c.toNat
  · have := escapeSize_le_two_mul h
    omega
  · have hsmall : ∀ n < 32, escapeSize (Char.ofNat n) ≤ 6 := by decide
    have := hsmall c.toNat (by omega)
    rw [Char.ofNat_toNat] at this
    omega

theorem sum_escapeSize_le {k : ℕ} (h : ∀ c ∈ cs, escapeSize c ≤ k * c.utf8Size) :
    (cs.map escapeSize).sum ≤ k * byteLength cs := by
  induction cs with
  | nil => simp
  | cons c cs ih =>
    have hc := h c (by simp)
    have hcs := ih fun d hd => h d (by simp [hd])
    simp only [List.map_cons, List.sum_cons, byteLength_cons, Nat.mul_add]
    omega

/-- **Quoting a text without control characters at most doubles it.** -/
theorem quoteSize_le_two_mul (h : NoControl cs) :
    quoteSize (String.ofList cs) ≤ 2 + 2 * byteLength cs := by
  rw [quoteSize, String.toList_ofList]
  have hsum : (cs.map escapeSize).sum ≤ 2 * byteLength cs :=
    sum_escapeSize_le fun c hc => escapeSize_le_two_mul (h c hc)
  omega

/-- Quoting any text makes it at most six times as long. -/
theorem quoteSize_le : quoteSize s ≤ 2 + 6 * s.utf8ByteSize := by
  have h : (s.toList.map escapeSize).sum ≤ 6 * byteLength s.toList :=
    sum_escapeSize_le fun c _ => escapeSize_le_six_mul c
  rw [byteLength_toList] at h
  rw [quoteSize]
  omega

theorem le_quoteSize : 2 ≤ quoteSize s := Nat.le_add_right 2 _

end Json

end Rivloom
