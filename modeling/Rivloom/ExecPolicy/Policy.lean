import Mathlib.Order.Lattice
import Rivloom.Lib.MultiMap
import Rivloom.Lib.StrMap
import Rivloom.Path.AbsolutePath

/-!
# Execution policies

A policy decides whether a command may run, by *prefix rules*: a rule names a program
and the tokens that follow it, and renders a decision for every command that begins
so. Rules are found in two stages. First by the program **as it is written** in the
command; only when no rule matches there, by the **basename** of the program, resolved
to an absolute path – and a table of host executables can restrict which paths a basename
stands for. A command that no rule matches is decided by a fallback.

The strictest of the matching rules wins
(`Rivloom.ExecPolicy.Evaluation.fromMatches`); two policies are merged by putting their
rules together (`Rivloom.ExecPolicy.Policy.mergeOverlay`).

Programs are resolved by the host, which knows its home and working directories and how
executables are named on its platform: `Rivloom.ExecPolicy.Host` is that resolution, and
`Rivloom.ExecPolicy.Host.unix` the one of a host with slashes.
-/

namespace Rivloom.ExecPolicy

variable {Path : Type}

/-! ### Decisions -/

/-- What a rule decides, from the most lenient to the strictest. -/
inductive Decision where
  | allow | prompt | forbidden

namespace Decision

/-- The place of a decision in the derived order. -/
def rank : Decision → ℕ
  | .allow => 0
  | .prompt => 1
  | .forbidden => 2

instance : LinearOrder Decision :=
  LinearOrder.lift' rank (by
    intro a b h
    cases a <;> cases b <;> first | rfl | cases h)

instance : Std.LawfulOrderMax Decision where
  max_le_iff _ _ _ := sup_le_iff
  max_eq_or a b := by rcases le_total a b with h | h <;> simp [h]

theorem allow_le (decision : Decision) : allow ≤ decision := Nat.zero_le decision.rank

theorem not_le_allow {decision : Decision} (h : decision ≠ .allow) : ¬decision ≤ .allow := by
  intro hle
  exact h (le_antisymm hle (allow_le decision))

end Decision

/-! ### Rules -/

/-- What one token of a command has to be. -/
inductive PatternToken where
  | single (expected : String)
  | alts (alternatives : List String)
  deriving DecidableEq

namespace PatternToken

/-- `PatternToken::matches`. -/
def test : PatternToken → String → Bool
  | .single expected, token => expected == token
  | .alts alternatives, token => alternatives.any (· == token)

def alternatives : PatternToken → List String
  | .single expected => [expected]
  | .alts alternatives => alternatives

end PatternToken

/-- The beginning of a command. -/
structure PrefixPattern where
  first : String
  rest : List PatternToken
  deriving DecidableEq

/-- The tokens that a pattern matches at the beginning of a command. -/
def PrefixPattern.matchesPrefix (pattern : PrefixPattern) : List String → Option (List String)
  | [] => none
  | program :: args =>
    if args.length < pattern.rest.length || program != pattern.first then none
    else if (pattern.rest.zip args).all fun (patternToken, token) => patternToken.test token then
      some (program :: args.take pattern.rest.length)
    else none

structure PrefixRule where
  pattern : PrefixPattern
  decision : Decision
  justification : Option String
  deriving DecidableEq

/-- How a command came to its decision: by a rule, or by the fallback. -/
inductive RuleMatch (Path : Type) where
  | prefixRuleMatch (matchedPrefix : List String) (decision : Decision)
      (resolvedProgram : Option Path) (justification : Option String)
  | heuristicsRuleMatch (command : List String) (decision : Decision)
  deriving DecidableEq

namespace RuleMatch

variable {Path : Type}

def decision : RuleMatch Path → Decision
  | .prefixRuleMatch _ decision _ _ => decision
  | .heuristicsRuleMatch _ decision => decision

def withResolvedProgram (resolved : Path) : RuleMatch Path → RuleMatch Path
  | .prefixRuleMatch matchedPrefix decision _ justification =>
    .prefixRuleMatch matchedPrefix decision (some resolved) justification
  | other => other

/-- A match by a rule, not by the fallback. -/
def isPolicyMatch : RuleMatch Path → Bool
  | .prefixRuleMatch .. => true
  | .heuristicsRuleMatch .. => false

@[simp] theorem decision_withResolvedProgram (resolved : Path) (found : RuleMatch Path) :
    (found.withResolvedProgram resolved).decision = found.decision := by
  cases found <;> rfl

@[simp] theorem isPolicyMatch_withResolvedProgram (resolved : Path) (found : RuleMatch Path) :
    (found.withResolvedProgram resolved).isPolicyMatch = found.isPolicyMatch := by
  cases found <;> rfl

end RuleMatch

/-- `PrefixRule::matches`. -/
def PrefixRule.match? {Path : Type} (rule : PrefixRule) (command : List String) :
    Option (RuleMatch Path) :=
  (rule.pattern.matchesPrefix command).map fun matchedPrefix =>
    .prefixRuleMatch matchedPrefix rule.decision none rule.justification

inductive NetworkRuleProtocol where
  | http | https | socks5Tcp | socks5Udp
  deriving DecidableEq

structure NetworkRule where
  host : String
  protocol : NetworkRuleProtocol
  decision : Decision
  justification : Option String
  deriving DecidableEq

/-! ### Policies -/

/-- **How a host finds programs**: the absolute path that a token stands for, and the name
that rules know the executable at a path by. -/
structure Host (Path : Type) where
  /-- `AbsolutePathBuf::try_from`. -/
  tryFrom : String → Option Path
  executablePathLookupKey : Path → Option String

/-- A host whose paths have slashes, and whose executables are named as they are. -/
def Host.unix (paths : PathHost) : Host AbsolutePathBuf where
  tryFrom := AbsolutePathBuf.fromAbsolutePath paths
  executablePathLookupKey := AbsolutePathBuf.fileName

structure Policy (Path : Type) where
  rulesByProgram : MultiMap String PrefixRule
  networkRules : List NetworkRule
  hostExecutablesByName : StrMap (List Path)

/-- Whether basenames are tried for programs given by their path. -/
structure MatchOptions where
  resolveHostExecutables : Bool

/-- **The decision for a command**, with the matches it comes from. -/
structure Evaluation (Path : Type) where
  decision : Decision
  matchedRules : List (RuleMatch Path)

/-- The strictest decision; without any match there is none, and the code would stop. -/
def Evaluation.fromMatches {Path : Type} (matchedRules : List (RuleMatch Path)) :
    Option (Evaluation Path) :=
  (matchedRules.map RuleMatch.decision).max?.map fun decision => { decision, matchedRules }

namespace Policy

variable {Path : Type} [DecidableEq Path]

def empty : Policy Path := ⟨.empty, [], ∅⟩

/-- `add_prefix_rule`, which refuses an empty prefix. -/
def addPrefixRule (policy : Policy Path) (tokens : List String) (decision : Decision) :
    Option (Policy Path) :=
  match tokens with
  | [] => none
  | first :: rest =>
    let rule : PrefixRule := ⟨⟨first, rest.map .single⟩, decision, none⟩
    some { policy with rulesByProgram := policy.rulesByProgram.insert first rule }

/-- **Two policies together**: all rules of both, and the overlay's host executables in
place of those of the same name. -/
def mergeOverlay (policy overlay : Policy Path) : Policy Path where
  rulesByProgram := policy.rulesByProgram.extend overlay.rulesByProgram
  networkRules := policy.networkRules ++ overlay.networkRules
  hostExecutablesByName :=
    overlay.hostExecutablesByName.toList.foldl (fun names entry => names.insert entry.1 entry.2)
      policy.hostExecutablesByName

/-- The rules that match a command by its program as it is written. -/
def matchExactRules (policy : Policy Path) (command : List String) : List (RuleMatch Path) :=
  match command.head? with
  | none => []
  | some first => (policy.rulesByProgram.getVec first).filterMap fun rule => rule.match? command

/-- The basename lets this program through to its rules: there is no entry for it in the
table of host executables, or the entry lists the program. -/
def admitsProgram (policy : Policy Path) (basename : String) (program : Path) : Bool :=
  match policy.hostExecutablesByName[basename]? with
  | none => true
  | some paths => paths.any (· == program)

/-- The rules that match a command by the basename of its program. -/
def matchHostExecutableRules (host : Host Path) (policy : Policy Path) (command : List String) :
    List (RuleMatch Path) :=
  match command with
  | [] => []
  | first :: args =>
    match host.tryFrom first with
    | none => []
    | some program =>
      match host.executablePathLookupKey program with
      | none => []
      | some basename =>
        if !policy.admitsProgram basename program then []
        else
          ((policy.rulesByProgram.getVec basename).filterMap fun rule =>
            rule.match? (basename :: args)).map (RuleMatch.withResolvedProgram program)

/-- The rules that match a command: those of the first stage, or else those of the second. -/
def matchingRules (host : Host Path) (policy : Policy Path) (command : List String)
    (options : MatchOptions) : List (RuleMatch Path) :=
  if policy.matchExactRules command ≠ [] then policy.matchExactRules command
  else if options.resolveHostExecutables then policy.matchHostExecutableRules host command
  else []

/-- **The matches of a command**, with the fallback's when no rule matches. -/
def matchesForCommandWithOptions (host : Host Path) (policy : Policy Path) (command : List String)
    (heuristicsFallback : Option (List String → Decision)) (options : MatchOptions) :
    List (RuleMatch Path) :=
  match policy.matchingRules host command options, heuristicsFallback with
  | [], some fallback => [.heuristicsRuleMatch command (fallback command)]
  | matchedRules, _ => matchedRules

def checkWithOptions (host : Host Path) (policy : Policy Path) (command : List String)
    (heuristicsFallback : List String → Decision) (options : MatchOptions) :
    Option (Evaluation Path) :=
  Evaluation.fromMatches
    (policy.matchesForCommandWithOptions host command (some heuristicsFallback) options)

/-- Several commands at once. -/
def checkMultipleWithOptions (host : Host Path) (policy : Policy Path)
    (commands : List (List String)) (heuristicsFallback : List String → Decision)
    (options : MatchOptions) : Option (Evaluation Path) :=
  Evaluation.fromMatches (commands.flatMap fun command =>
    policy.matchesForCommandWithOptions host command (some heuristicsFallback) options)

end Policy

/-! ### What the functions do -/

variable {found : List (RuleMatch Path)}

theorem Evaluation.fromMatches_eq_some {evaluation : Evaluation Path} :
    Evaluation.fromMatches found = some evaluation ↔
      evaluation.matchedRules = found ∧ (∃ m ∈ found, m.decision = evaluation.decision) ∧
        ∀ m ∈ found, m.decision ≤ evaluation.decision := by
  simp only [fromMatches, Option.map_eq_some_iff, List.max?_eq_some_iff, List.mem_map,
    forall_exists_index, and_imp, forall_apply_eq_imp_iff₂]
  constructor
  · rintro ⟨_, ⟨⟨m, hm, rfl⟩, hle⟩, rfl⟩
    exact ⟨rfl, ⟨m, hm, rfl⟩, hle⟩
  · rintro ⟨rfl, ⟨m, hm, hdecision⟩, hle⟩
    exact ⟨evaluation.decision, ⟨⟨m, hm, hdecision⟩, hle⟩, rfl⟩

theorem Evaluation.exists_fromMatches (h : found ≠ []) :
    ∃ evaluation, Evaluation.fromMatches found = some evaluation := by
  unfold fromMatches
  cases hmax : (found.map RuleMatch.decision).max? with
  | none => exact absurd (List.max?_eq_none_iff.mp hmax) (by simpa using h)
  | some decision => exact ⟨⟨decision, found⟩, rfl⟩

theorem PrefixRule.decision_of_match? {rule : PrefixRule} {command : List String}
    {found : RuleMatch Path} (h : rule.match? command = some found) :
    found.decision = rule.decision ∧ found.isPolicyMatch = true := by
  obtain ⟨matchedPrefix, -, rfl⟩ := Option.map_eq_some_iff.mp h
  exact ⟨rfl, rfl⟩

namespace Policy

variable {Path : Type} [DecidableEq Path] {host : Host Path} {policy overlay : Policy Path}
  {command : List String} {options : MatchOptions} {fallback : List String → Decision}

theorem exists_rule_of_mem_matchingRules {found : RuleMatch Path}
    (h : found ∈ policy.matchingRules host command options) :
    found.isPolicyMatch = true ∧
      ∃ program rule, (program, rule) ∈ policy.rulesByProgram.entries ∧
        found.decision = rule.decision := by
  unfold matchingRules at h
  split at h
  · unfold matchExactRules at h
    split at h
    · cases h
    · obtain ⟨rule, hrule, hmatch⟩ := List.mem_filterMap.mp h
      obtain ⟨hdecision, hpolicy⟩ := PrefixRule.decision_of_match? hmatch
      exact ⟨hpolicy, _, rule, MultiMap.mem_getVec.mp hrule, hdecision⟩
  · split at h
    · unfold matchHostExecutableRules at h
      split at h
      · cases h
      · split at h
        · cases h
        · split at h
          · cases h
          · split at h
            · cases h
            · obtain ⟨bare, hbare, rfl⟩ := List.mem_map.mp h
              obtain ⟨rule, hrule, hmatch⟩ := List.mem_filterMap.mp hbare
              obtain ⟨hdecision, hpolicy⟩ := PrefixRule.decision_of_match? hmatch
              exact ⟨by rw [RuleMatch.isPolicyMatch_withResolvedProgram, hpolicy], _, rule,
                MultiMap.mem_getVec.mp hrule,
                by rw [RuleMatch.decision_withResolvedProgram, hdecision]⟩
    · cases h

theorem matchesForCommandWithOptions_none :
    policy.matchesForCommandWithOptions host command none options =
      policy.matchingRules host command options := by
  unfold matchesForCommandWithOptions
  split
  · next h => cases h
  · rfl

theorem matchesForCommandWithOptions_some :
    policy.matchesForCommandWithOptions host command (some fallback) options =
      if policy.matchingRules host command options = [] then
        [.heuristicsRuleMatch command (fallback command)]
      else policy.matchingRules host command options := by
  unfold matchesForCommandWithOptions
  split
  · next hrules hfallback =>
    cases hfallback
    rw [if_pos hrules]
  · next hne =>
    rw [if_neg]
    intro hnil
    exact hne fallback hnil rfl

theorem matchesForCommandWithOptions_ne_nil :
    policy.matchesForCommandWithOptions host command (some fallback) options ≠ [] := by
  rw [matchesForCommandWithOptions_some]
  split
  · exact List.cons_ne_nil _ _
  · assumption

omit [DecidableEq Path] in
theorem matchExactRules_mergeOverlay :
    (policy.mergeOverlay overlay).matchExactRules command =
      policy.matchExactRules command ++ overlay.matchExactRules command := by
  unfold matchExactRules
  split
  · rfl
  · rw [mergeOverlay, MultiMap.getVec_extend, List.filterMap_append]

theorem admitsProgram_mergeOverlay (h : overlay.hostExecutablesByName = ∅) (basename : String)
    (program : Path) :
    (policy.mergeOverlay overlay).admitsProgram basename program =
      policy.admitsProgram basename program := by
  unfold admitsProgram mergeOverlay
  rw [h]
  rfl

end Policy

end Rivloom.ExecPolicy
