import Mathlib.Data.Bool.AllAny
import Mathlib.Data.Char
import Mathlib.Data.List.Dedup
import Mathlib.Data.List.Lex
import Mathlib.Data.List.Sort
import Rivloom.Lib.FreshName
import Rivloom.Lib.Json
import Rivloom.Lib.RustText

/-!
# The names of tools

A server may call its tools as it likes. What the model is shown has to be a name that its
interface accepts: letters, digits and underscores, at most 128 bytes with the delimiter
between the two parts of a name, and no name twice. `normalizeToolsForModelWithPrefix`
arrives there in passes. Tools with the same raw identity are one tool; the namespace and
the name are sanitized; namespaces, and then names, that have become equal are told apart
by a hash of what they were; and then, in the order of the raw identities, every tool takes
its name if it is short enough and still free, and a name with a hash of its identity if
not – and if that is taken as well, one with a hash of its identity and a number, until one
is free.

Only the last pass makes sure that names are different. That it comes to an end is the one
thing that depends on the hash (`Rivloom.Mcp.HashesDiffer`), and that the names do not
depend on the order of the tools is what the order of the identities is for.
-/

namespace Rivloom.Mcp

variable {ρ τ : Type} {β : Type}

/-- A tool, as far as its names are concerned; the type `ρ` is that of everything else. -/
structure ToolInfo (ρ : Type) where
  serverName : Text
  callableName : Text
  callableNamespace : Text
  toolName : Text
  connectorId : Option Text
  rest : ρ
  deriving DecidableEq

/-- The digest of a text, in forty hexadecimal digits. -/
structure HexDigest where
  text : Text
  length : text.length = 40
  hex : ∀ c ∈ text, c.isDigit ∨ ('a' ≤ c ∧ c ≤ 'f')

def legacyMcpToolNamePrefix : Text := "mcp__".toList

def mcpToolNameDelimiter : Text := "__".toList

def maxToolNameLength : ℕ := 128

def callableNameHashLen : ℕ := 12

/-! ### Identities -/

namespace ToolInfo

variable (tool : ToolInfo ρ)

def rawNamespaceIdentity : Text :=
  tool.serverName ++ '\x00' :: tool.callableNamespace ++ '\x00' :: tool.connectorId.getD []

def rawToolIdentity : Text :=
  tool.rawNamespaceIdentity ++ '\x00' :: tool.callableName ++ '\x00' :: tool.toolName

/-- What the identity of a tool is made of. -/
def rawParts : Text × Text × Text × Text × Text :=
  (tool.serverName, tool.callableNamespace, tool.connectorId.getD [], tool.callableName,
    tool.toolName)

end ToolInfo

/-! ### Sanitizing -/

/-- A character that the interface of the model accepts. -/
def IsNameChar (c : Char) : Prop := c.isAlphanum = true ∨ c = '_'

instance (c : Char) : Decidable (IsNameChar c) := inferInstanceAs (Decidable (_ ∨ _))

def sanitizeResponsesApiToolName (name : Text) : Text :=
  let sanitized := name.map fun c => if IsNameChar c then c else '_'
  if sanitized = [] then ['_'] else sanitized

def callableNamespaceWithPrefix (name : Text) (prefixMcpToolNames : Bool) : Text :=
  if !prefixMcpToolNames || decide (legacyMcpToolNamePrefix <+: name) then name
  else legacyMcpToolNamePrefix ++ name

/-- A tool with the names it is to be given. -/
structure CallableToolCandidate (τ : Type) where
  tool : τ
  rawNamespaceIdentity : Text
  rawToolIdentity : Text
  callableNamespace : Text
  callableName : Text
  deriving DecidableEq

/-- The tool as the model is shown it: nothing but the names has changed. -/
def CallableToolCandidate.modelTool (c : CallableToolCandidate (ToolInfo ρ)) : ToolInfo ρ :=
  { c.tool with callableNamespace := c.callableNamespace, callableName := c.callableName }

/-- The first of the tools with a raw identity; the others are skipped. -/
def withoutDuplicates (seenRawNames : List Text) : List (ToolInfo ρ) → List (ToolInfo ρ)
  | [] => []
  | tool :: tools =>
    if tool.rawToolIdentity ∈ seenRawNames then withoutDuplicates seenRawNames tools
    else tool :: withoutDuplicates (tool.rawToolIdentity :: seenRawNames) tools

section Names

variable (prefixMcpToolNames : Bool) (nonPrefixedMcpToolServers : List Text)

def candidate (tool : ToolInfo ρ) : CallableToolCandidate (ToolInfo ρ) where
  tool
  rawNamespaceIdentity := tool.rawNamespaceIdentity
  rawToolIdentity := tool.rawToolIdentity
  callableNamespace := callableNamespaceWithPrefix
    (sanitizeResponsesApiToolName tool.callableNamespace)
    (prefixMcpToolNames && !decide (tool.serverName ∈ nonPrefixedMcpToolServers))
  callableName := sanitizeResponsesApiToolName tool.callableName

def candidates (tools : List (ToolInfo ρ)) : List (CallableToolCandidate (ToolInfo ρ)) :=
  (withoutDuplicates [] tools).map (candidate prefixMcpToolNames nonPrefixedMcpToolServers)

end Names

/-! ### Hashes -/

section Hash

variable (sha1Hex : Text → HexDigest) {all : List (CallableToolCandidate τ)} {usedNames : List Text}
  {σ : Type} {c : Char}

def callableNameHashSuffix (rawIdentity : Text) : Text :=
  '_' :: (sha1Hex rawIdentity).text.take callableNameHashLen

def appendHashSuffix (value rawIdentity : Text) : Text :=
  value ++ callableNameHashSuffix sha1Hex rawIdentity

/-- The suffix stands in front of a delimiter at the end. -/
def appendNamespaceHashSuffix (name rawIdentity : Text) : Text :=
  if mcpToolNameDelimiter <:+ name then
    name.take (name.length - mcpToolNameDelimiter.length) ++
      callableNameHashSuffix sha1Hex rawIdentity ++ mcpToolNameDelimiter
  else appendHashSuffix sha1Hex name rawIdentity

/-- More than one raw identity has come to the same name. -/
def collides {β : Type} [DecidableEq β] (name : CallableToolCandidate τ → β)
    (identity : CallableToolCandidate τ → Text) (all : List (CallableToolCandidate τ))
    (value : β) : Bool :=
  1 < ((all.filter fun c => name c = value).map identity).dedup.length

/-- **Namespaces that have become equal are told apart.** -/
def hashNamespaces (all : List (CallableToolCandidate τ)) : List (CallableToolCandidate τ) :=
  all.map fun c =>
    if collides (·.callableNamespace) (·.rawNamespaceIdentity) all c.callableNamespace then
      { c with callableNamespace :=
          appendNamespaceHashSuffix sha1Hex c.callableNamespace c.rawNamespaceIdentity }
    else c

/-- **Names in a namespace that have become equal are told apart.** -/
def hashNames (all : List (CallableToolCandidate τ)) : List (CallableToolCandidate τ) :=
  all.map fun c =>
    if collides (fun c => (c.callableNamespace, c.callableName)) (·.rawToolIdentity) all
        (c.callableNamespace, c.callableName) then
      { c with callableName := appendHashSuffix sha1Hex c.callableName c.rawToolIdentity }
    else c

/-! ### Names that are short enough and free -/

/-- **Make room for the hash**: the name is shortened, or if that is not enough, the namespace. -/
def fitCallablePartsWithHash (name toolName rawIdentity : Text) (reservedLen : ℕ) : Text × Text :=
  let suffix := callableNameHashSuffix sha1Hex rawIdentity
  let maxToolLen := maxToolNameLength - (byteLength name + reservedLen)
  if byteLength suffix ≤ maxToolLen then
    (name, toolName.take (maxToolLen - byteLength suffix) ++ suffix)
  else (name.take (maxToolNameLength - (byteLength suffix + reservedLen)), suffix)

/-- What is hashed at an attempt. -/
def hashInput (rawIdentity : Text) (attempt : ℕ) : Text :=
  if attempt = 0 then rawIdentity else rawIdentity ++ '\x00' :: Nat.toDigits 10 attempt

/-- The parts of the name that is tried at an attempt. -/
def attemptParts (name toolName rawIdentity : Text) (reservedLen attempt : ℕ) : Text × Text :=
  fitCallablePartsWithHash sha1Hex name toolName (hashInput rawIdentity attempt) reservedLen

/-- **A name that is short enough and free.** The attempts are bounded by `fuel`. -/
def uniqueCallableParts (fuel : ℕ) (name toolName rawIdentity : Text) (usedNames : List Text)
    (reservedLen : ℕ) : Option (Text × Text) :=
  if byteLength (name ++ toolName) + reservedLen ≤ maxToolNameLength ∧ name ++ toolName ∉ usedNames
  then some (name, toolName)
  else
    let parts := attemptParts sha1Hex name toolName rawIdentity reservedLen
    (FreshName.firstFree (fun attempt => (parts attempt).1 ++ (parts attempt).2) usedNames fuel
      0).map parts

/-- **Give every candidate its name.** -/
def assignNames (fuel : ℕ) (usedNames : List Text) :
    List (CallableToolCandidate τ) → Option (List (CallableToolCandidate τ))
  | [] => some []
  | c :: rest =>
    match uniqueCallableParts sha1Hex fuel c.callableNamespace c.callableName c.rawToolIdentity
      usedNames mcpToolNameDelimiter.length with
    | none => none
    | some (name, toolName) =>
      (assignNames fuel ((name ++ toolName) :: usedNames) rest).map
        ({ c with callableNamespace := name, callableName := toolName } :: ·)

/-- The candidates in the order of their identities. -/
def sortCandidates (all : List (CallableToolCandidate τ)) : List (CallableToolCandidate τ) :=
  all.insertionSort fun c c' => c.rawToolIdentity ≤ c'.rawToolIdentity

/-- The candidates with the names they are given. -/
def namedCandidates (fuel : ℕ) (all : List (CallableToolCandidate τ)) :
    Option (List (CallableToolCandidate τ)) :=
  assignNames sha1Hex fuel []
    (sortCandidates (hashNames sha1Hex (hashNamespaces sha1Hex all)))

/-- **The tools as the model is shown them.** -/
def normalizeToolsForModelWithPrefix (fuel : ℕ) (tools : List (ToolInfo ρ))
    (prefixMcpToolNames : Bool) (nonPrefixedMcpToolServers : List Text) :
    Option (List (ToolInfo ρ)) :=
  (namedCandidates sha1Hex fuel
    (candidates prefixMcpToolNames nonPrefixedMcpToolServers tools)).map
      (List.map CallableToolCandidate.modelTool)

/-! ### Characters and lengths -/

/-- A text that the interface of the model accepts. -/
def IsName (text : Text) : Prop := ∀ c ∈ text, IsNameChar c

instance (text : Text) : Decidable (IsName text) :=
  inferInstanceAs (Decidable (∀ c ∈ text, IsNameChar c))

theorem IsName.append {s t : Text} (hs : IsName s) (ht : IsName t) : IsName (s ++ t) := by
  intro c hc
  rcases List.mem_append.mp hc with hc | hc
  · exact hs c hc
  · exact ht c hc

theorem IsName.take {s : Text} (hs : IsName s) (n : ℕ) : IsName (s.take n) :=
  fun c hc => hs c (List.mem_of_mem_take hc)

theorem isName_sanitize (name : Text) : IsName (sanitizeResponsesApiToolName name) := by
  rw [sanitizeResponsesApiToolName]
  split
  · intro c hc
    rw [List.mem_singleton.mp hc]
    exact Or.inr rfl
  · intro c hc
    obtain ⟨d, -, rfl⟩ := List.mem_map.mp hc
    split
    · assumption
    · exact Or.inr rfl

theorem isName_callableNamespaceWithPrefix {name : Text} (h : IsName name) (flag : Bool) :
    IsName (callableNamespaceWithPrefix name flag) := by
  rw [callableNamespaceWithPrefix]
  split
  · exact h
  · exact IsName.append (List.all_iff_forall_prop.mp (by decide)) h

theorem isNameChar_of_hex (h : c.isDigit ∨ ('a' ≤ c ∧ c ≤ 'f')) : IsNameChar c := by
  refine Or.inl (Bool.or_eq_true_iff.mpr ?_)
  rcases h with h | ⟨hlow, hhigh⟩
  · exact Or.inr h
  · have hz : c ≤ 'z' := Char.le_trans hhigh (by decide)
    have hlower : c.isLower = true :=
      Bool.and_eq_true_iff.mpr ⟨decide_eq_true hlow, decide_eq_true hz⟩
    exact Or.inl (Bool.or_eq_true_iff.mpr (Or.inr hlower))

theorem isName_suffix (rawIdentity : Text) :
    IsName (callableNameHashSuffix sha1Hex rawIdentity) := by
  intro c hc
  rcases List.mem_cons.mp hc with rfl | hc
  · exact Or.inr rfl
  · exact isNameChar_of_hex ((sha1Hex rawIdentity).hex c (List.mem_of_mem_take hc))

theorem isName_appendNamespaceHashSuffix {name : Text} (h : IsName name) (rawIdentity : Text) :
    IsName (appendNamespaceHashSuffix sha1Hex name rawIdentity) := by
  rw [appendNamespaceHashSuffix]
  split
  · exact ((h.take _).append (isName_suffix sha1Hex rawIdentity)).append
      (List.all_iff_forall_prop.mp (by decide))
  · exact h.append (isName_suffix sha1Hex rawIdentity)

theorem toNat_lt_of_isNameChar (h : IsNameChar c) : c.toNat < 128 := by
  suffices hval : c.val ≤ 127 from Nat.lt_succ_of_le (UInt32.le_iff_toNat_le.mp hval)
  rcases h with h | rfl
  · rcases Bool.or_eq_true_iff.mp h with h | h
    · rcases Bool.or_eq_true_iff.mp h with h | h
      · exact UInt32.le_trans (of_decide_eq_true h).2 (by decide)
      · exact UInt32.le_trans (of_decide_eq_true (Bool.and_eq_true_iff.mp h).2) (by decide)
    · exact UInt32.le_trans (of_decide_eq_true (Bool.and_eq_true_iff.mp h).2) (by decide)
  · decide

theorem IsName.byteLength {text : Text} (h : IsName text) : byteLength text = text.length :=
  byteLength_eq_length fun c hc => toNat_lt_of_isNameChar (h c hc)

theorem length_suffix (rawIdentity : Text) :
    (callableNameHashSuffix sha1Hex rawIdentity).length = 13 := by
  rw [callableNameHashSuffix, List.length_cons, List.length_take, (sha1Hex rawIdentity).length]
  rfl

/-! ### One name -/

variable {name toolName rawIdentity : Text}

/-- **Whatever was shortened, the name is short enough.** -/
theorem fit_spec (hname : IsName name) (htool : IsName toolName) (rawIdentity : Text) :
    let parts := fitCallablePartsWithHash sha1Hex name toolName rawIdentity
      mcpToolNameDelimiter.length
    IsName (parts.1 ++ parts.2) ∧
      byteLength (parts.1 ++ parts.2) + mcpToolNameDelimiter.length ≤ maxToolNameLength := by
  have hsuffix := isName_suffix sha1Hex rawIdentity
  have hlength := length_suffix sha1Hex rawIdentity
  have hdelimiter : mcpToolNameDelimiter.length = 2 := rfl
  have hmax : maxToolNameLength = 128 := rfl
  rw [fitCallablePartsWithHash, hsuffix.byteLength, hname.byteLength, hlength, hdelimiter, hmax]
  split
  · next hfits =>
    have hboth := hname.append ((htool.take (128 - (name.length + 2) - 13)).append hsuffix)
    refine ⟨hboth, ?_⟩
    rw [hboth.byteLength, List.length_append, List.length_append, List.length_take, hlength]
    omega
  · have hboth := (hname.take (128 - (13 + 2))).append hsuffix
    refine ⟨hboth, ?_⟩
    rw [hboth.byteLength, List.length_append, List.length_take, hlength]
    omega

theorem exists_stem (name toolName rawIdentity : Text) (reservedLen : ℕ) :
    ∃ stem, ∀ attempt, (attemptParts sha1Hex name toolName rawIdentity reservedLen attempt).1 ++
        (attemptParts sha1Hex name toolName rawIdentity reservedLen attempt).2 =
      stem ++ callableNameHashSuffix sha1Hex (hashInput rawIdentity attempt) := by
  have hsuffix : ∀ attempt,
      byteLength (callableNameHashSuffix sha1Hex (hashInput rawIdentity attempt)) = 13 :=
        fun attempt =>
    (isName_suffix sha1Hex _).byteLength.trans (length_suffix sha1Hex _)
  by_cases hfits : 13 ≤ maxToolNameLength - (byteLength name + reservedLen)
  · refine ⟨name ++ toolName.take (maxToolNameLength - (byteLength name + reservedLen) - 13),
      fun attempt => ?_⟩
    rw [attemptParts, fitCallablePartsWithHash, hsuffix, if_pos hfits, List.append_assoc]
  · refine ⟨name.take (maxToolNameLength - (13 + reservedLen)), fun attempt => ?_⟩
    rw [attemptParts, fitCallablePartsWithHash, hsuffix, if_neg hfits]

theorem hashInput_injective (rawIdentity : Text) : Function.Injective (hashInput rawIdentity) := by
  intro a b hab
  have hlonger : ∀ rest : Text, rawIdentity ≠ rawIdentity ++ '\x00' :: rest := by
    intro rest heq
    have hlength := congrArg List.length heq
    rw [List.length_append, List.length_cons] at hlength
    omega
  rw [hashInput, hashInput] at hab
  by_cases ha : a = 0
  · by_cases hb : b = 0
    · rw [ha, hb]
    · rw [if_pos ha, if_neg hb] at hab
      exact absurd hab (hlonger _)
  · by_cases hb : b = 0
    · rw [if_neg ha, if_pos hb] at hab
      exact absurd hab.symm (hlonger _)
    · rw [if_neg ha, if_neg hb] at hab
      have hdigits := (List.cons.inj (List.append_cancel_left hab)).2
      rw [← Nat.ofDigitChars_ten_toDigits (n := a), hdigits, Nat.ofDigitChars_ten_toDigits]

/-- The hashes of what may be tried for an identity differ. -/
def AttemptsDiffer (rawIdentity : Text) (attempts : ℕ) : Prop :=
  Set.InjOn (callableNameHashSuffix sha1Hex) {s | ∃ attempt ≤ attempts,
    s = hashInput rawIdentity attempt}

/-- What a name has to be: free, acceptable, and short enough. -/
structure Fits (usedNames : List Text) (parts : Text × Text) : Prop where
  free : parts.1 ++ parts.2 ∉ usedNames
  isName : IsName (parts.1 ++ parts.2)
  short : byteLength (parts.1 ++ parts.2) + mcpToolNameDelimiter.length ≤ maxToolNameLength

/-- **A name is found**, with one more attempt than there are names in use. -/
theorem exists_uniqueCallableParts (hname : IsName name) (htool : IsName toolName)
    (hdiffer : AttemptsDiffer sha1Hex rawIdentity usedNames.length) :
    ∃ parts, Fits usedNames parts ∧ ∀ fuel, usedNames.length < fuel →
      uniqueCallableParts sha1Hex fuel name toolName rawIdentity usedNames
        mcpToolNameDelimiter.length = some parts := by
  by_cases hfirst : byteLength (name ++ toolName) + mcpToolNameDelimiter.length ≤
    maxToolNameLength ∧
      name ++ toolName ∉ usedNames
  · refine ⟨(name, toolName), ⟨hfirst.2, hname.append htool, hfirst.1⟩, fun fuel _ => ?_⟩
    rw [uniqueCallableParts, if_pos hfirst]
  · let parts := attemptParts sha1Hex name toolName rawIdentity mcpToolNameDelimiter.length
    obtain ⟨stem, hstem⟩ := exists_stem sha1Hex name toolName rawIdentity
      mcpToolNameDelimiter.length
    have hinj : Set.InjOn (fun attempt => (parts attempt).1 ++ (parts attempt).2)
        {k | k ≤ usedNames.length} := by
      intro a ha b hb hab
      dsimp only [parts] at hab
      rw [hstem, hstem] at hab
      exact hashInput_injective rawIdentity
        (hdiffer ⟨a, ha, rfl⟩ ⟨b, hb, rfl⟩ (List.append_cancel_left hab))
    obtain ⟨k, hfree, hfound⟩ := FreshName.exists_firstFree hinj
    obtain ⟨hisName, hshort⟩ := fit_spec sha1Hex hname htool (hashInput rawIdentity k)
    refine ⟨parts k, ⟨hfree, hisName, hshort⟩, fun fuel hfuel => ?_⟩
    rw [uniqueCallableParts, if_neg hfirst]
    dsimp only
    rw [hfound fuel hfuel]
    rfl

/-! ### The names of all tools -/

/-- A candidate without its tool. -/
def CallableToolCandidate.withoutTool (c : CallableToolCandidate τ) : CallableToolCandidate Unit :=
  { c with tool := () }

open CallableToolCandidate (withoutTool)

/-- The tool of a candidate and its identity, which no pass changes. -/
def CallableToolCandidate.identified (c : CallableToolCandidate τ) : Text × τ :=
  (c.rawToolIdentity, c.tool)

/-- The names of a candidate are acceptable. -/
def CallableToolCandidate.Acceptable (c : CallableToolCandidate τ) : Prop :=
  IsName c.callableNamespace ∧ IsName c.callableName

/-- **Every candidate is given a name that fits.** -/
theorem exists_assignNames (hall : ∀ c ∈ all, c.Acceptable)
    (hdiffer : ∀ c ∈ all, AttemptsDiffer sha1Hex c.rawToolIdentity (usedNames.length + all.length))
    :
    ∃ named : List (CallableToolCandidate τ),
      (∀ fuel, usedNames.length + all.length < fuel →
        assignNames sha1Hex fuel usedNames all = some named) ∧
      named.map CallableToolCandidate.identified = all.map CallableToolCandidate.identified ∧
      (named.map fun c => c.callableNamespace ++ c.callableName).Nodup ∧
      ∀ c ∈ named, Fits usedNames (c.callableNamespace, c.callableName) := by
  induction all generalizing usedNames with
  | nil => exact ⟨[], fun _ _ => rfl, rfl, List.nodup_nil, nofun⟩
  | cons c rest ih =>
    have hmono : ∀ d ∈ c :: rest, ∀ k ≤ usedNames.length + (c :: rest).length,
        AttemptsDiffer sha1Hex d.rawToolIdentity k := by
      intro d hd k hk s hs t ht
      obtain ⟨a, ha, rfl⟩ := hs
      obtain ⟨b, hb, rfl⟩ := ht
      exact hdiffer d hd ⟨a, ha.trans hk, rfl⟩ ⟨b, hb.trans hk, rfl⟩
    obtain ⟨hname, htool⟩ := hall c List.mem_cons_self
    obtain ⟨parts, hfits, hparts⟩ := exists_uniqueCallableParts sha1Hex hname htool
      (hmono c List.mem_cons_self usedNames.length (Nat.le_add_right _ _))
    obtain ⟨named, hassigned, hidentified, hnodup, hrest⟩ := @ih
      ((parts.1 ++ parts.2) :: usedNames)
      (fun d hd => hall d (List.mem_cons_of_mem c hd))
      (fun d hd => hmono d (List.mem_cons_of_mem c hd) _ (by
        rw [List.length_cons, List.length_cons]
        omega))
    refine ⟨{ c with callableNamespace := parts.1, callableName := parts.2 } :: named, ?_, ?_, ?_,
      ?_⟩
    · intro fuel hfuel
      rw [List.length_cons] at hfuel
      rw [assignNames, hparts fuel (by omega)]
      dsimp only
      rw [hassigned fuel (by rw [List.length_cons]; omega)]
      rfl
    · rw [List.map_cons, List.map_cons, hidentified]
      rfl
    · rw [List.map_cons, List.nodup_cons]
      refine ⟨fun hmem => ?_, hnodup⟩
      obtain ⟨d, hd, heq⟩ := List.mem_map.mp hmem
      exact (hrest d hd).free (List.mem_cons.mpr (Or.inl heq))
    · intro d hd
      rcases List.mem_cons.mp hd with rfl | hd
      · exact hfits
      · have hd := hrest d hd
        exact ⟨fun hmem => hd.free (List.mem_cons_of_mem _ hmem), hd.isName, hd.short⟩

theorem identified_hash (all : List (CallableToolCandidate τ)) :
    (hashNames sha1Hex (hashNamespaces sha1Hex all)).map CallableToolCandidate.identified =
      all.map CallableToolCandidate.identified := by
  rw [hashNames, List.map_map, hashNamespaces, List.map_map]
  refine List.map_congr_left fun c _ => ?_
  dsimp only [Function.comp_apply]
  split
  · split
    · rfl
    · rfl
  · split
    · rfl
    · rfl

theorem acceptable_hash (hall : ∀ c ∈ all, c.Acceptable) :
    ∀ c ∈ hashNames sha1Hex (hashNamespaces sha1Hex all), c.Acceptable := by
  have hnamespaces : ∀ c ∈ hashNamespaces sha1Hex all, c.Acceptable := by
    intro c hc
    obtain ⟨d, hd, rfl⟩ := List.mem_map.mp hc
    split
    · exact ⟨isName_appendNamespaceHashSuffix sha1Hex (hall d hd).1 _, (hall d hd).2⟩
    · exact hall d hd
  intro c hc
  obtain ⟨d, hd, rfl⟩ := List.mem_map.mp hc
  split
  · exact ⟨(hnamespaces d hd).1, (hnamespaces d hd).2.append (isName_suffix sha1Hex _)⟩
  · exact hnamespaces d hd

theorem sortCandidates_perm (all : List (CallableToolCandidate τ)) :
    (sortCandidates all).Perm all := List.perm_insertionSort _ all

/-! ### The order of the tools -/

variable {others : List (CallableToolCandidate σ)}

/-- The same candidates, apart from their tools and their order. -/
def Alike (all : List (CallableToolCandidate τ)) (others : List (CallableToolCandidate σ)) : Prop :=
  (all.map withoutTool).Perm (others.map withoutTool)

/-- Whether a name collides does not depend on the tools or their order. -/
theorem collides_eq [DecidableEq β] (h : Alike all others) (name : CallableToolCandidate Unit → β)
    (identity : CallableToolCandidate Unit → Text) (value : β) :
    collides (fun c => name c.withoutTool) (fun c => identity c.withoutTool) all value =
      collides (fun c => name c.withoutTool) (fun c => identity c.withoutTool) others value := by
  have hone : ∀ {τ : Type} (all : List (CallableToolCandidate τ)),
      (all.filter fun c => name c.withoutTool = value).map (fun c => identity c.withoutTool) =
        ((all.map withoutTool).filter fun c => name c = value).map identity := by
    intro τ all
    rw [List.filter_map, List.map_map]
    rfl
  rw [collides, collides, hone, hone, ((List.Perm.filter _ h).map identity).dedup.length_eq]

/-- **A pass depends neither on the tools nor on their order**, if what it does to a candidate does
not depend on its tool. -/
theorem Alike.pass [DecidableEq β] (h : Alike all others) (name : CallableToolCandidate Unit → β)
    (identity : CallableToolCandidate Unit → Text)
    (edit : CallableToolCandidate Unit → CallableToolCandidate Unit)
    {pass : List (CallableToolCandidate τ) → List (CallableToolCandidate τ)}
    {pass' : List (CallableToolCandidate σ) → List (CallableToolCandidate σ)}
    (hpass : (pass all).map withoutTool = (all.map withoutTool).map fun c =>
      if collides (fun c => name c.withoutTool) (fun c => identity c.withoutTool) all (name c) then
        edit c else c)
    (hpass' : (pass' others).map withoutTool = (others.map withoutTool).map fun c =>
      if collides (fun c => name c.withoutTool) (fun c => identity c.withoutTool) others (name c)
        then edit c else c) : Alike (pass all) (pass' others) := by
  rw [Alike, hpass, hpass']
  simp only [collides_eq h]
  exact List.Perm.map _ h

theorem Alike.hashNamespaces (h : Alike all others) :
    Alike (hashNamespaces sha1Hex all) (hashNamespaces sha1Hex others) := by
  have hform : ∀ {τ : Type} (all : List (CallableToolCandidate τ)),
      (Mcp.hashNamespaces sha1Hex all).map withoutTool = (all.map withoutTool).map fun c =>
        if collides (fun c => c.withoutTool.callableNamespace)
          (fun c => c.withoutTool.rawNamespaceIdentity) all c.callableNamespace then
          { c with callableNamespace :=
              appendNamespaceHashSuffix sha1Hex c.callableNamespace c.rawNamespaceIdentity }
        else c := by
    intro τ all
    rw [Mcp.hashNamespaces, List.map_map, List.map_map]
    refine List.map_congr_left fun c _ => ?_
    exact apply_ite withoutTool _ _ _
  exact h.pass (·.callableNamespace) (·.rawNamespaceIdentity) _ (hform all) (hform others)

theorem Alike.hashNames (h : Alike all others) :
    Alike (hashNames sha1Hex all) (hashNames sha1Hex others) := by
  have hform : ∀ {τ : Type} (all : List (CallableToolCandidate τ)),
      (Mcp.hashNames sha1Hex all).map withoutTool = (all.map withoutTool).map fun c =>
        if collides (fun c => (c.withoutTool.callableNamespace, c.withoutTool.callableName))
          (fun c => c.withoutTool.rawToolIdentity) all (c.callableNamespace, c.callableName) then
          { c with callableName := appendHashSuffix sha1Hex c.callableName c.rawToolIdentity }
        else c := by
    intro τ all
    rw [Mcp.hashNames, List.map_map, List.map_map]
    refine List.map_congr_left fun c _ => ?_
    exact apply_ite withoutTool _ _ _
  exact h.pass (fun c => (c.callableNamespace, c.callableName)) (·.rawToolIdentity) _ (hform all)
    (hform others)

theorem withoutTool_sortCandidates (all : List (CallableToolCandidate τ)) :
    (sortCandidates all).map withoutTool = sortCandidates (all.map withoutTool) :=
  List.map_insertionSort _ _ _ _ fun _ _ _ _ => Iff.rfl

/-- **Candidates with different identities have one order.** -/
theorem sortCandidates_eq {all others : List (CallableToolCandidate τ)} (h : all.Perm others)
    (hdistinct : ∀ c ∈ all, ∀ d ∈ all, c.rawToolIdentity = d.rawToolIdentity → c = d) :
    sortCandidates all = sortCandidates others := by
  have : Std.Total fun c c' : CallableToolCandidate τ => c.rawToolIdentity ≤ c'.rawToolIdentity :=
    ⟨fun c c' => le_total c.rawToolIdentity c'.rawToolIdentity⟩
  have : IsTrans (CallableToolCandidate τ) fun c c' => c.rawToolIdentity ≤ c'.rawToolIdentity :=
    ⟨fun _ _ _ => le_trans⟩
  have hsorted := List.pairwise_insertionSort
    (fun c c' : CallableToolCandidate τ => c.rawToolIdentity ≤ c'.rawToolIdentity)
  refine List.Perm.eq_of_pairwise (fun c d hc hd hle hge => ?_) (hsorted all) (hsorted others)
    ((sortCandidates_perm all).trans (h.trans (sortCandidates_perm others).symm))
  exact hdistinct c ((sortCandidates_perm all).mem_iff.mp hc) d
    (h.mem_iff.mpr ((sortCandidates_perm others).mem_iff.mp hd)) (le_antisymm hle hge)

theorem withoutTool_assignNames (fuel : ℕ) (usedNames : List Text)
    (all : List (CallableToolCandidate τ)) :
    (assignNames sha1Hex fuel usedNames all).map (List.map withoutTool) =
      assignNames sha1Hex fuel usedNames (all.map withoutTool) := by
  induction all generalizing usedNames with
  | nil => rfl
  | cons c rest ih =>
    rw [List.map_cons, assignNames, assignNames]
    dsimp only [withoutTool]
    split
    · rfl
    · next name toolName _ =>
      rw [← ih, Option.map_map, Option.map_map]
      rfl

/-- **The names do not depend on the tools or their order.** -/
theorem withoutTool_namedCandidates (fuel : ℕ) (h : Alike all others)
    (hdistinct : (all.map (·.rawToolIdentity)).Nodup) :
    (namedCandidates sha1Hex fuel all).map (List.map withoutTool) =
      (namedCandidates sha1Hex fuel others).map (List.map withoutTool) := by
  rw [namedCandidates, namedCandidates, withoutTool_assignNames, withoutTool_assignNames,
    withoutTool_sortCandidates, withoutTool_sortCandidates]
  refine congrArg _ (sortCandidates_eq ((h.hashNamespaces sha1Hex).hashNames sha1Hex) ?_)
  -- the identities are those of the candidates
  have hidentities : ((hashNames sha1Hex (hashNamespaces sha1Hex all)).map
      withoutTool).map (·.rawToolIdentity) = all.map (·.rawToolIdentity) := by
    have hfst := congrArg (List.map Prod.fst) (identified_hash sha1Hex all)
    rw [List.map_map, List.map_map] at hfst
    rw [List.map_map]
    exact hfst
  rw [← hidentities] at hdistinct
  exact fun c hc d hd => List.inj_on_of_nodup_map hdistinct hc hd

end Hash

/-! ### The tools -/

section Tools

open CallableToolCandidate (withoutTool)

variable {tools : List (ToolInfo ρ)} {others : List (ToolInfo ρ)} {tool : ToolInfo ρ}
  {seen : List Text}

theorem mem_withoutDuplicates (h : tool ∈ withoutDuplicates seen tools) :
    tool ∈ tools ∧ tool.rawToolIdentity ∉ seen := by
  induction tools generalizing seen with
  | nil => cases h
  | cons first tools ih =>
    rw [withoutDuplicates] at h
    split at h
    · exact ⟨List.mem_cons_of_mem _ (ih h).1, (ih h).2⟩
    · next hfirst =>
      rcases List.mem_cons.mp h with rfl | h
      · exact ⟨List.mem_cons_self, hfirst⟩
      · exact ⟨List.mem_cons_of_mem _ (ih h).1,
          fun hseen => (ih h).2 (List.mem_cons_of_mem _ hseen)⟩

theorem exists_mem_withoutDuplicates (h : tool ∈ tools) (hseen : tool.rawToolIdentity ∉ seen) :
    ∃ kept ∈ withoutDuplicates seen tools, kept.rawToolIdentity = tool.rawToolIdentity := by
  induction tools generalizing seen with
  | nil => cases h
  | cons first tools ih =>
    rw [withoutDuplicates]
    by_cases hsame : first.rawToolIdentity = tool.rawToolIdentity
    · rw [if_neg (hsame ▸ hseen)]
      exact ⟨first, List.mem_cons_self, hsame⟩
    · have hrest : tool ∈ tools := (List.mem_cons.mp h).resolve_left fun heq => hsame (heq ▸ rfl)
      split
      · exact ih hrest hseen
      · obtain ⟨kept, hkept, heq⟩ := @ih (first.rawToolIdentity :: seen) hrest
          fun hmem => (List.mem_cons.mp hmem).elim (fun heq => hsame heq.symm) hseen
        exact ⟨kept, List.mem_cons_of_mem _ hkept, heq⟩

theorem nodup_withoutDuplicates (seen : List Text) (tools : List (ToolInfo ρ)) :
    ((withoutDuplicates seen tools).map ToolInfo.rawToolIdentity).Nodup := by
  induction tools generalizing seen with
  | nil => exact List.nodup_nil
  | cons first tools ih =>
    rw [withoutDuplicates]
    split
    · exact ih seen
    · rw [List.map_cons, List.nodup_cons]
      refine ⟨fun hmem => ?_, ih _⟩
      obtain ⟨tool, htool, heq⟩ := List.mem_map.mp hmem
      exact (mem_withoutDuplicates htool).2 (List.mem_cons.mpr (Or.inl heq))

theorem length_withoutDuplicates (seen : List Text) (tools : List (ToolInfo ρ)) :
    (withoutDuplicates seen tools).length ≤ tools.length := by
  induction tools generalizing seen with
  | nil => exact le_rfl
  | cons first tools ih =>
    rw [withoutDuplicates]
    split
    · exact (ih seen).trans (Nat.le_succ _)
    · exact Nat.succ_le_succ (ih _)

variable (prefixMcpToolNames : Bool) (nonPrefixedMcpToolServers : List Text)

theorem acceptable_candidate (tool : ToolInfo ρ) :
    (candidate prefixMcpToolNames nonPrefixedMcpToolServers tool).Acceptable :=
  ⟨isName_callableNamespaceWithPrefix (isName_sanitize _) _, isName_sanitize _⟩

/-- **The raw identity of a tool says what it is made of.** This can only fail if parts of it
contain the character that joins them. -/
def IdentitiesDiffer (tools : List (ToolInfo ρ)) : Prop :=
  ∀ tool ∈ tools, ∀ other ∈ tools,
    tool.rawToolIdentity = other.rawToolIdentity → tool.rawParts = other.rawParts

theorem withoutTool_candidate {tool other : ToolInfo ρ} (h : tool.rawParts = other.rawParts) :
    (candidate prefixMcpToolNames nonPrefixedMcpToolServers tool).withoutTool =
      (candidate prefixMcpToolNames nonPrefixedMcpToolServers other).withoutTool := by
  simp only [ToolInfo.rawParts, Prod.mk.injEq] at h
  obtain ⟨hserver, hnamespace, hconnector, hname, htool⟩ := h
  simp only [withoutTool, candidate, ToolInfo.rawToolIdentity,
    ToolInfo.rawNamespaceIdentity, hserver, hnamespace, hconnector, hname, htool]

theorem identities_candidates (tools : List (ToolInfo ρ)) :
    (candidates prefixMcpToolNames nonPrefixedMcpToolServers tools).map (·.rawToolIdentity) =
      (withoutDuplicates [] tools).map ToolInfo.rawToolIdentity := by
  rw [candidates, List.map_map]
  rfl

theorem subset_candidates (hsubset : tools ⊆ others) (hdiffer : IdentitiesDiffer others) :
    (candidates prefixMcpToolNames nonPrefixedMcpToolServers tools).map withoutTool ⊆
      (candidates prefixMcpToolNames nonPrefixedMcpToolServers others).map withoutTool := by
  rw [candidates, candidates, List.map_map, List.map_map]
  intro c hc
  obtain ⟨tool, htool, rfl⟩ := List.mem_map.mp hc
  have hmem := hsubset (mem_withoutDuplicates htool).1
  obtain ⟨kept, hkept, heq⟩ := exists_mem_withoutDuplicates hmem List.not_mem_nil
  refine List.mem_map.mpr ⟨kept, hkept, ?_⟩
  exact withoutTool_candidate _ _ (hdiffer kept (mem_withoutDuplicates hkept).1 tool hmem heq)

/-- **The candidates are the same, whatever the order of the tools.** -/
theorem alike_candidates (hperm : tools.Perm others) (hdiffer : IdentitiesDiffer tools) :
    Alike (candidates prefixMcpToolNames nonPrefixedMcpToolServers tools)
      (candidates prefixMcpToolNames nonPrefixedMcpToolServers others) := by
  have hnodup : ∀ tools : List (ToolInfo ρ),
      ((candidates prefixMcpToolNames nonPrefixedMcpToolServers tools).map withoutTool).Nodup := by
    intro tools
    refine List.Nodup.of_map (·.rawToolIdentity) ?_
    rw [List.map_map]
    exact (identities_candidates _ _ tools).symm ▸ nodup_withoutDuplicates [] tools
  have hothers : IdentitiesDiffer others := fun tool htool other hother =>
    hdiffer tool (hperm.mem_iff.mpr htool) other (hperm.mem_iff.mpr hother)
  rw [Alike, List.perm_ext_iff_of_nodup (hnodup tools) (hnodup others)]
  intro c
  constructor
  · intro hc
    exact subset_candidates _ _ hperm.subset hothers hc
  · intro hc
    exact subset_candidates _ _ hperm.symm.subset hdiffer hc

end Tools

/-! ### The names -/

section Result

variable (sha1Hex : Text → HexDigest) (prefixMcpToolNames : Bool)
  (nonPrefixedMcpToolServers : List Text) (tools : List (ToolInfo ρ))

/-- **The hashes of what may be tried for these tools differ.** -/
def HashesDiffer : Prop :=
  Set.InjOn (callableNameHashSuffix sha1Hex) {s | ∃ tool ∈ tools, ∃ attempt ≤ tools.length,
    s = hashInput tool.rawToolIdentity attempt}

/-- The candidates in the order in which they are given names: tools and identities are those of the
list without duplicates. -/
theorem identified_sorted :
    ((sortCandidates (hashNames sha1Hex (hashNamespaces sha1Hex
        (candidates prefixMcpToolNames nonPrefixedMcpToolServers tools)))).map
          CallableToolCandidate.identified).Perm
      ((withoutDuplicates [] tools).map fun tool => (tool.rawToolIdentity, tool)) := by
  have hpasses := identified_hash sha1Hex
    (candidates prefixMcpToolNames nonPrefixedMcpToolServers tools)
  have hcandidates : (candidates prefixMcpToolNames nonPrefixedMcpToolServers tools).map
      CallableToolCandidate.identified =
        (withoutDuplicates [] tools).map fun tool => (tool.rawToolIdentity, tool) := by
    rw [candidates, List.map_map]
    rfl
  rw [← hcandidates, ← hpasses]
  exact (sortCandidates_perm _).map _

/-- **The candidates are given their names.** -/
theorem exists_namedCandidates (hdiffer : HashesDiffer sha1Hex tools) :
    ∃ named : List (CallableToolCandidate (ToolInfo ρ)),
      (∀ fuel, tools.length < fuel → namedCandidates sha1Hex fuel
        (candidates prefixMcpToolNames nonPrefixedMcpToolServers tools) = some named) ∧
      (named.map CallableToolCandidate.identified).Perm
        ((withoutDuplicates [] tools).map fun tool => (tool.rawToolIdentity, tool)) ∧
      (named.map fun c => c.callableNamespace ++ c.callableName).Nodup ∧
      ∀ c ∈ named, Fits [] (c.callableNamespace, c.callableName) := by
  have hsorted := identified_sorted sha1Hex prefixMcpToolNames nonPrefixedMcpToolServers tools
  generalize hall : sortCandidates (hashNames sha1Hex (hashNamespaces sha1Hex
    (candidates prefixMcpToolNames nonPrefixedMcpToolServers tools))) = all at hsorted
  have hlength : all.length ≤ tools.length := by
    have heq := hsorted.length_eq
    rw [List.length_map, List.length_map] at heq
    exact heq ▸ length_withoutDuplicates [] tools
  have hacceptable : ∀ c ∈ all, c.Acceptable := by
    intro c hc
    rw [← hall] at hc
    refine acceptable_hash sha1Hex (fun d hd => ?_) c ((sortCandidates_perm _).mem_iff.mp hc)
    obtain ⟨tool, -, rfl⟩ := List.mem_map.mp hd
    exact acceptable_candidate _ _ tool
  have hattempts : ∀ c ∈ all, AttemptsDiffer sha1Hex c.rawToolIdentity
      (([] : List Text).length + all.length) := by
    intro c hc
    obtain ⟨tool, htool, heq⟩ := List.mem_map.mp
      (hsorted.mem_iff.mp (List.mem_map_of_mem (f := CallableToolCandidate.identified) hc))
    have hidentity : tool.rawToolIdentity = c.rawToolIdentity := congrArg Prod.fst heq
    refine hdiffer.mono ?_
    rintro s ⟨attempt, hattempt, rfl⟩
    rw [List.length_nil, Nat.zero_add] at hattempt
    exact ⟨tool, (mem_withoutDuplicates htool).1, attempt, hattempt.trans hlength, by
      rw [hidentity]⟩
  obtain ⟨named, hnamed, hidentified, hnodup, hfits⟩ :=
    exists_assignNames sha1Hex hacceptable hattempts
  refine ⟨named, fun fuel hfuel => ?_, hidentified ▸ hsorted, hnodup, hfits⟩
  rw [namedCandidates, hall]
  refine hnamed fuel ?_
  rw [List.length_nil]
  omega

/-- **The names that the model is shown.** If the hashes differ, the passes come to an end, and
there is exactly one tool for every raw identity, the tool of the list with nothing changed but the
names. The names are different, at most 126 bytes long and made of letters, digits and underscores.
And if tools with the same raw identity are made of the same parts, every identity is given the same
name whatever the order of the tools. -/
theorem tool_names_are_unique (hdiffer : HashesDiffer sha1Hex tools) :
    ∃ named : List (CallableToolCandidate (ToolInfo ρ)),
      (∀ fuel, tools.length < fuel → normalizeToolsForModelWithPrefix sha1Hex fuel tools
        prefixMcpToolNames nonPrefixedMcpToolServers =
          some (named.map CallableToolCandidate.modelTool)) ∧
      (named.map (·.rawToolIdentity)).Nodup ∧
      (∀ identity, identity ∈ named.map (·.rawToolIdentity) ↔
        ∃ tool ∈ tools, tool.rawToolIdentity = identity) ∧
      (∀ c ∈ named, c.tool ∈ tools ∧ c.tool.rawToolIdentity = c.rawToolIdentity) ∧
      (named.map fun c => c.callableNamespace ++ c.callableName).Nodup ∧
      (∀ c ∈ named, byteLength (c.callableNamespace ++ c.callableName) ≤ 126 ∧
        ∀ ch ∈ c.callableNamespace ++ c.callableName, IsNameChar ch) ∧
      (IdentitiesDiffer tools → ∀ others : List (ToolInfo ρ), tools.Perm others →
        ∃ named' : List (CallableToolCandidate (ToolInfo ρ)),
          (∀ fuel, tools.length < fuel → normalizeToolsForModelWithPrefix sha1Hex fuel others
            prefixMcpToolNames nonPrefixedMcpToolServers =
              some (named'.map CallableToolCandidate.modelTool)) ∧
          named'.map (fun c => (c.rawToolIdentity, c.callableNamespace, c.callableName)) =
            named.map (fun c => (c.rawToolIdentity, c.callableNamespace, c.callableName))) := by
  obtain ⟨named, hnamed, hidentified, hnodup, hfits⟩ := exists_namedCandidates sha1Hex
    prefixMcpToolNames nonPrefixedMcpToolServers tools hdiffer
  have hidentities : (named.map (·.rawToolIdentity)).Perm
      ((withoutDuplicates [] tools).map ToolInfo.rawToolIdentity) := by
    have hfst := hidentified.map Prod.fst
    rw [List.map_map, List.map_map] at hfst
    exact hfst
  refine ⟨named, ?_, ?_, ?_, ?_, hnodup, ?_, ?_⟩
  · intro fuel hfuel
    rw [normalizeToolsForModelWithPrefix, hnamed fuel hfuel]
    rfl
  · exact hidentities.nodup_iff.mpr (nodup_withoutDuplicates [] tools)
  · intro identity
    rw [hidentities.mem_iff, List.mem_map]
    constructor
    · rintro ⟨tool, htool, rfl⟩
      exact ⟨tool, (mem_withoutDuplicates htool).1, rfl⟩
    · rintro ⟨tool, htool, rfl⟩
      exact exists_mem_withoutDuplicates htool List.not_mem_nil
  · intro c hc
    obtain ⟨tool, htool, heq⟩ := List.mem_map.mp
      (hidentified.mem_iff.mp (List.mem_map_of_mem (f := CallableToolCandidate.identified) hc))
    obtain ⟨hidentity, rfl⟩ := Prod.mk.inj heq
    exact ⟨(mem_withoutDuplicates htool).1, hidentity⟩
  · intro c hc
    refine ⟨?_, (hfits c hc).isName⟩
    have hshort := (hfits c hc).short
    have hdelimiter : mcpToolNameDelimiter.length = 2 := rfl
    have hmax : maxToolNameLength = 128 := rfl
    dsimp only at hshort
    omega
  · intro hparts others hperm
    have hothers : HashesDiffer sha1Hex others := by
      rw [HashesDiffer, ← hperm.length_eq]
      refine Set.InjOn.mono ?_ hdiffer
      rintro s ⟨tool, htool, hrest⟩
      exact ⟨tool, hperm.mem_iff.mpr htool, hrest⟩
    obtain ⟨named', hnamed', -⟩ := exists_namedCandidates sha1Hex prefixMcpToolNames
      nonPrefixedMcpToolServers others hothers
    refine ⟨named', fun fuel hfuel => ?_, ?_⟩
    · rw [normalizeToolsForModelWithPrefix, hnamed' fuel (hperm.length_eq ▸ hfuel)]
      rfl
    · -- the names are those of the candidates without their tools
      have hsame := withoutTool_namedCandidates sha1Hex (tools.length + 1)
        (alike_candidates prefixMcpToolNames nonPrefixedMcpToolServers hperm hparts)
        (identities_candidates prefixMcpToolNames nonPrefixedMcpToolServers tools ▸
          nodup_withoutDuplicates [] tools)
      rw [hnamed _ (Nat.lt_succ_self _), hnamed' _ (hperm.length_eq ▸ Nat.lt_succ_self _),
        Option.map_some, Option.map_some, Option.some_inj] at hsame
      have hnames := congrArg (List.map fun c : CallableToolCandidate Unit =>
        (c.rawToolIdentity, c.callableNamespace, c.callableName)) hsame
      rw [List.map_map, List.map_map] at hnames
      exact hnames.symm

end Result

/-- Two tools whose names become equal. -/
def hyphenated : List (ToolInfo Unit) :=
  [⟨"files".toList, "read-file".toList, "files".toList, "read-file".toList, none, ()⟩,
    ⟨"files".toList, "read_file".toList, "files".toList, "read_file".toList, none, ()⟩]

def readHyphen : Text := "files\x00files\x00\x00read-file\x00read-file".toList

def readUnderscore : Text := "files\x00files\x00\x00read_file\x00read_file".toList

/-- The SHA-1 digests of what may be hashed for their names. -/
def hyphenatedDigests : List (Text × String) :=
  [(hashInput readHyphen 0, "1c6171b30e4e5ce1d405012318dc0fd1f089f5a3"),
    (hashInput readHyphen 1, "eae751a616c21365f43987c9a41b48e6cd12aad5"),
    (hashInput readHyphen 2, "56b7d6bf72ecc24a50ae64bc7417a02030fc2874"),
    (hashInput readUnderscore 0, "9862e773611ffd47da55b8b49a67206e5209e5ee"),
    (hashInput readUnderscore 1, "a509ae25c7010dcdc325fdb2db2365dcc02ef160"),
    (hashInput readUnderscore 2, "40d7b600c199abf0bec1e00e3274a9a725c40459")]

/-- SHA-1, as far as it is needed for them; every other text has the digest of the empty one. -/
def hyphenatedSha1Text (text : Text) : Text :=
  ((hyphenatedDigests.find? (·.1 == text)).elim "da39a3ee5e6b4b0d3255bfef95601890afd80709"
    Prod.snd).toList

theorem hyphenatedSha1Text_isDigest (text : Text) :
    (hyphenatedSha1Text text).length = 40 ∧
      ∀ c ∈ hyphenatedSha1Text text, c.isDigit ∨ ('a' ≤ c ∧ c ≤ 'f') := by
  rw [hyphenatedSha1Text]
  cases hfind : hyphenatedDigests.find? (·.1 == text) with
  | none => exact ⟨by decide, List.all_iff_forall_prop.mp (by decide)⟩
  | some entry =>
    have hall : ∀ entry ∈ hyphenatedDigests, entry.2.toList.length = 40 ∧
        entry.2.toList.all (fun c => c.isDigit ∨ ('a' ≤ c ∧ c ≤ 'f')) = true :=
      List.all_iff_forall_prop.mp (by decide +kernel)
    obtain ⟨hlength, hhex⟩ := hall entry (List.mem_of_find?_eq_some hfind)
    exact ⟨hlength, List.all_iff_forall_prop.mp hhex⟩

def hyphenatedSha1 (text : Text) : HexDigest :=
  ⟨hyphenatedSha1Text text, (hyphenatedSha1Text_isDigest text).1,
    (hyphenatedSha1Text_isDigest text).2⟩

theorem hashesDiffer_hyphenated : HashesDiffer hyphenatedSha1 hyphenated := by
  have hall : ∀ tool ∈ hyphenated, ∀ a ∈ List.range 3, ∀ other ∈ hyphenated, ∀ b ∈ List.range 3,
      callableNameHashSuffix hyphenatedSha1 (hashInput tool.rawToolIdentity a) =
          callableNameHashSuffix hyphenatedSha1 (hashInput other.rawToolIdentity b) →
        hashInput tool.rawToolIdentity a = hashInput other.rawToolIdentity b := by
    decide +kernel
  rintro s ⟨tool, htool, a, ha, rfl⟩ t ⟨other, hother, b, hb, rfl⟩ heq
  exact hall tool htool a (List.mem_range.mpr (Nat.lt_succ_of_le ha)) other hother b
    (List.mem_range.mpr (Nat.lt_succ_of_le hb)) heq

theorem hyphenated_names_are_unique :
    (normalizeToolsForModelWithPrefix hyphenatedSha1 3 hyphenated true []).map
        (List.map fun tool => String.ofList (tool.callableNamespace ++ tool.callableName)) =
      some ["mcp__filesread_file_1c6171b30e4e", "mcp__filesread_file_9862e773611f"] ∧
    ∃ named : List (CallableToolCandidate (ToolInfo Unit)),
      (∀ fuel, 2 < fuel → normalizeToolsForModelWithPrefix hyphenatedSha1 fuel hyphenated true [] =
        some (named.map CallableToolCandidate.modelTool)) ∧
      (named.map fun c => c.callableNamespace ++ c.callableName).Nodup := by
  obtain ⟨named, hnamed, -, -, -, hnodup, -⟩ :=
    tool_names_are_unique hyphenatedSha1 true [] hyphenated hashesDiffer_hyphenated
  exact ⟨by decide +kernel, named, hnamed, hnodup⟩

theorem collides_singleton [DecidableEq β] (name : CallableToolCandidate τ → β)
    (identity : CallableToolCandidate τ → Text) (c : CallableToolCandidate τ) (value : β) :
    collides name identity [c] value = false := by
  rw [collides, decide_eq_false_iff_not, not_lt]
  refine (List.dedup_sublist _).length_le.trans ?_
  rw [List.length_map]
  exact List.length_filter_le _ _

theorem namedCandidates_singleton (sha1Hex : Text → HexDigest) (fuel : ℕ)
    {c : CallableToolCandidate τ}
    (h : byteLength (c.callableNamespace ++ c.callableName) + mcpToolNameDelimiter.length ≤
      maxToolNameLength) :
    namedCandidates sha1Hex fuel [c] = some [c] := by
  have hnamespaces : hashNamespaces sha1Hex [c] = [c] := by
    rw [hashNamespaces, List.map_singleton, collides_singleton, if_neg Bool.false_ne_true]
  have hnames : hashNames sha1Hex [c] = [c] := by
    rw [hashNames, List.map_singleton, collides_singleton, if_neg Bool.false_ne_true]
  have hsort : sortCandidates [c] = [c] := rfl
  rw [namedCandidates, hnamespaces, hnames, hsort, assignNames, uniqueCallableParts,
    if_pos ⟨h, List.not_mem_nil⟩]
  rfl

/-- A tool of a connector whose name contains the character that joins the parts of an identity. -/
def sendMail : ToolInfo Unit :=
  ⟨"codex_apps".toList, "send_mail_send".toList, "codex_apps__mail".toList,
    "_send\x00mail_send".toList, some "c".toList, ()⟩

/-- A tool of another connector, with the same raw identity. -/
def mailSend : ToolInfo Unit :=
  ⟨"codex_apps".toList, "_send".toList, "codex_apps__mail".toList, "mail_send".toList,
    some "c\x00send_mail_send".toList, ()⟩

/-- **Two tools with one raw identity**: the first of them is kept, and the name is that of the tool
that is kept. -/
theorem first_tool_gives_the_name :
    sendMail.rawToolIdentity = mailSend.rawToolIdentity ∧
    ∀ sha1Hex : Text → HexDigest,
      normalizeToolsForModelWithPrefix sha1Hex 3 [sendMail, mailSend] true [] =
        some [{ sendMail with callableNamespace := "mcp__codex_apps__mail".toList,
                              callableName := "send_mail_send".toList }] ∧
      normalizeToolsForModelWithPrefix sha1Hex 3 [mailSend, sendMail] true [] =
        some [{ mailSend with callableNamespace := "mcp__codex_apps__mail".toList,
                              callableName := "_send".toList }] := by
  have hfirst : candidates true [] [sendMail, mailSend] = [candidate true [] sendMail] := by
    decide +kernel
  have hsecond : candidates true [] [mailSend, sendMail] = [candidate true [] mailSend] := by
    decide +kernel
  refine ⟨by decide +kernel, fun sha1Hex => ⟨?_, ?_⟩⟩
  · rw [normalizeToolsForModelWithPrefix, hfirst,
      namedCandidates_singleton sha1Hex 3 (by decide +kernel)]
    decide +kernel
  · rw [normalizeToolsForModelWithPrefix, hsecond,
      namedCandidates_singleton sha1Hex 3 (by decide +kernel)]
    decide +kernel

end Rivloom.Mcp
