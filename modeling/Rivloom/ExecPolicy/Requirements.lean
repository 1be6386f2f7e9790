import Rivloom.Lib.Action
import Rivloom.ExecPolicy.Policy

/-!
# Managed rules

An administrator can require rules (`Rivloom.ExecPolicy.RequirementsExecPolicyToml`), which
may prompt or forbid but not allow, and which are laid over the rules of the user.
Whether a managed rule keeps its force depends on the *stage* at which it matches.

* A managed rule that matches the program as it is written always counts: the first stage
  of the merged policy has every match of both.
* A managed rule that matches by basename counts only in the second stage, and it is the
  merged policy that decides whether the second stage is reached: a rule of the user for
  the program's own path ends the search in the first stage, and a host-executable entry of
  the user can keep the path from being resolved to the basename.

`Rivloom.ExecPolicy.Keeps` is the exact condition, and
`Rivloom.ExecPolicy.managed_decision_kept_iff` says that it is: the merged decision is at
least as strict as the managed one, whatever the fallback, exactly then.
-/

namespace Rivloom.ExecPolicy

variable {rules next : MultiMap String PrefixRule} {ruleIndex : ℕ}

/-! ### Requirements -/

structure RequirementsExecPolicyPatternTokenToml where
  token : Option String
  anyOf : Option (List String)

inductive RequirementsExecPolicyDecisionToml where
  | allow | prompt | forbidden

def RequirementsExecPolicyDecisionToml.asDecision : RequirementsExecPolicyDecisionToml → Decision
  | .allow => .allow
  | .prompt => .prompt
  | .forbidden => .forbidden

structure RequirementsExecPolicyPrefixRuleToml where
  pattern : List RequirementsExecPolicyPatternTokenToml
  decision : Option RequirementsExecPolicyDecisionToml
  justification : Option String

structure RequirementsExecPolicyToml where
  prefixRules : List RequirementsExecPolicyPrefixRuleToml

inductive RequirementsExecPolicyParseError where
  | emptyPrefixRules
  | emptyPattern (ruleIndex : ℕ)
  | invalidPatternToken (ruleIndex tokenIndex : ℕ) (reason : String)
  | emptyJustification (ruleIndex : ℕ)
  | missingDecision (ruleIndex : ℕ)
  | allowDecisionNotAllowed (ruleIndex : ℕ)

def parsePatternToken (token : RequirementsExecPolicyPatternTokenToml)
    (ruleIndex tokenIndex : ℕ) : Except RequirementsExecPolicyParseError PatternToken :=
  match token.token, token.anyOf with
  | some single, none =>
    if trimIsEmpty single then
      .error (.invalidPatternToken ruleIndex tokenIndex "token cannot be empty")
    else .ok (.single single)
  | none, some alternatives =>
    if alternatives.isEmpty then
      .error (.invalidPatternToken ruleIndex tokenIndex "any_of cannot be empty")
    else if alternatives.any trimIsEmpty then
      .error (.invalidPatternToken ruleIndex tokenIndex "any_of cannot include empty tokens")
    else .ok (.alts alternatives)
  | some _, some _ =>
    .error (.invalidPatternToken ruleIndex tokenIndex "set either token or any_of, not both")
  | none, none =>
    .error (.invalidPatternToken ruleIndex tokenIndex "set either token or any_of")

/-- The tokens of a pattern, numbered from an index on. -/
def parsePatternTokens (ruleIndex : ℕ) :
    ℕ → List RequirementsExecPolicyPatternTokenToml →
      Except RequirementsExecPolicyParseError (List PatternToken)
  | _, [] => .ok []
  | tokenIndex, token :: rest => do
    let parsed ← parsePatternToken token ruleIndex tokenIndex
    let parsedRest ← parsePatternTokens ruleIndex (tokenIndex + 1) rest
    return parsed :: parsedRest

/-- A decision has to be given, and may not allow. -/
def requiredDecision (decision : Option RequirementsExecPolicyDecisionToml) (ruleIndex : ℕ) :
    Except RequirementsExecPolicyParseError Decision :=
  match decision with
  | some .allow => .error (.allowDecisionNotAllowed ruleIndex)
  | some decision => .ok decision.asDecision
  | none => .error (.missingDecision ruleIndex)

/-- One rule for each alternative of the first token. -/
def insertAlternatives (rules : MultiMap String PrefixRule) (heads : List String)
    (rest : List PatternToken) (decision : Decision) (justification : Option String) :
    MultiMap String PrefixRule :=
  heads.foldl (fun rules head => rules.insert head ⟨⟨head, rest⟩, decision, justification⟩) rules

/-- One rule of the requirements. -/
def addRequirement (rules : MultiMap String PrefixRule) (ruleIndex : ℕ)
    (rule : RequirementsExecPolicyPrefixRuleToml) :
    Except RequirementsExecPolicyParseError (MultiMap String PrefixRule) := do
  Except.failIf (rule.justification.any trimIsEmpty)
    (.emptyJustification ruleIndex : RequirementsExecPolicyParseError)
  Except.failIf rule.pattern.isEmpty (.emptyPattern ruleIndex)
  let patternTokens ← parsePatternTokens ruleIndex 0 rule.pattern
  let decision ← requiredDecision rule.decision ruleIndex
  match patternTokens with
  | [] => throw (.emptyPattern ruleIndex)
  | first :: rest =>
    return insertAlternatives rules first.alternatives rest decision rule.justification

/-- The rules one after the other, numbered from an index on. -/
def addRequirements :
    MultiMap String PrefixRule → ℕ → List RequirementsExecPolicyPrefixRuleToml →
      Except RequirementsExecPolicyParseError (MultiMap String PrefixRule)
  | rules, _, [] => .ok rules
  | rules, ruleIndex, rule :: rest => do
    let rules ← addRequirement rules ruleIndex rule
    addRequirements rules (ruleIndex + 1) rest

/-- **Requirements as a policy.** -/
def RequirementsExecPolicyToml.toPolicy (Path : Type) (requirements : RequirementsExecPolicyToml) :
    Except RequirementsExecPolicyParseError (Policy Path) := do
  Except.failIf requirements.prefixRules.isEmpty .emptyPrefixRules
  let rules ← addRequirements .empty 0 requirements.prefixRules
  return { rulesByProgram := rules, networkRules := [], hostExecutablesByName := ∅ }

/-- **What a managed policy is**: its rules prompt or forbid, and it says nothing of host
executables. -/
structure Policy.Managed {Path : Type} (policy : Policy Path) : Prop where
  decision_ne : ∀ program rule, (program, rule) ∈ policy.rulesByProgram.entries →
    rule.decision ≠ .allow
  hostExecutables_eq : policy.hostExecutablesByName = ∅

/-- No rule of a list of insertions allows. -/
def NoAllow (rules : MultiMap String PrefixRule) : Prop :=
  ∀ program rule, (program, rule) ∈ rules.entries → rule.decision ≠ .allow

theorem NoAllow.insertAlternatives (h : NoAllow rules) (heads : List String)
    (rest : List PatternToken) {decision : Decision} (hdecision : decision ≠ .allow)
    (justification : Option String) :
    NoAllow (insertAlternatives rules heads rest decision justification) := by
  unfold ExecPolicy.insertAlternatives
  induction heads generalizing rules with
  | nil => exact h
  | cons head heads ih =>
    refine ih ?_
    intro program rule hmem
    rcases List.mem_append.mp hmem with hold | hnew
    · exact h program rule hold
    · obtain ⟨-, rfl⟩ := Prod.mk.inj (List.mem_singleton.mp hnew)
      exact hdecision

theorem requiredDecision_ne_allow {decision : Option RequirementsExecPolicyDecisionToml}
    {found : Decision} (h : requiredDecision decision ruleIndex = .ok found) : found ≠ .allow := by
  unfold requiredDecision at h
  rcases decision with _ | _ | _ | _
  · cases h
  · cases h
  · cases h
    exact Decision.noConfusion
  · cases h
    exact Decision.noConfusion

theorem NoAllow.addRequirement (h : NoAllow rules) {rule : RequirementsExecPolicyPrefixRuleToml}
    (hadd : addRequirement rules ruleIndex rule = .ok next) : NoAllow next := by
  unfold ExecPolicy.addRequirement at hadd
  obtain ⟨-, hadd⟩ := Except.bind_unit_eq_ok.mp hadd
  obtain ⟨-, hadd⟩ := Except.bind_unit_eq_ok.mp hadd
  obtain ⟨tokens, -, hadd⟩ := Except.bind_eq_ok.mp hadd
  obtain ⟨decision, hdecision, hadd⟩ := Except.bind_eq_ok.mp hadd
  cases tokens with
  | nil => cases hadd
  | cons first rest =>
    cases hadd
    exact h.insertAlternatives _ _ (requiredDecision_ne_allow hdecision) _

theorem NoAllow.addRequirements (h : NoAllow rules)
    {requirements : List RequirementsExecPolicyPrefixRuleToml}
    (hadd : addRequirements rules ruleIndex requirements = .ok next) : NoAllow next := by
  induction requirements generalizing rules ruleIndex with
  | nil =>
    cases hadd
    exact h
  | cons rule rest ih =>
    obtain ⟨middle, hmiddle, hrest⟩ := Except.bind_eq_ok.mp hadd
    exact ih (h.addRequirement hmiddle) hrest

/-- **Requirements are managed policies.** -/
theorem toPolicy_managed {Path : Type} {requirements : RequirementsExecPolicyToml}
    {policy : Policy Path} (h : requirements.toPolicy Path = .ok policy) : policy.Managed := by
  obtain ⟨-, h⟩ := Except.bind_unit_eq_ok.mp h
  obtain ⟨rules, hrules, h⟩ := Except.bind_eq_ok.mp h
  cases h
  refine ⟨?_, rfl⟩
  exact NoAllow.addRequirements (by intro program rule hmem; cases hmem) hrules

/-! ### Managed rules laid over others -/

section Merge

variable {Path : Type} [DecidableEq Path] {host : Host Path} {policy overlay : Policy Path}
  {command : List String} {found : RuleMatch Path}

/-- The options of every check of a command that is about to run. -/
def resolving : MatchOptions := ⟨true⟩

/-- The policy does not keep the command's program from being resolved to its basename. -/
def Policy.AdmitsBasename (host : Host Path) (policy : Policy Path) (command : List String) :
    Prop :=
  ∀ first program basename, command.head? = some first → host.tryFrom first = some program →
    host.executablePathLookupKey program = some basename →
    policy.admitsProgram basename program = true

/-- **When a managed decision keeps its force** over the rules of the user: a managed rule
matches the program as it is written; or no rule of the user does, and the user's table of
host executables does not exclude the program; or the user's own rule for it is as strict. -/
def Keeps (host : Host Path) (policy overlay : Policy Path) (command : List String)
    (decision : Decision) : Prop :=
  overlay.matchExactRules command ≠ [] ∨
    (policy.matchExactRules command = [] ∧ policy.AdmitsBasename host command) ∨
    ∃ found ∈ policy.matchExactRules command, decision ≤ found.decision

theorem matchingRules_of_exact (h : policy.matchExactRules command ≠ []) (options : MatchOptions) :
    policy.matchingRules host command options = policy.matchExactRules command := by
  rw [Policy.matchingRules, if_pos h]

theorem matchingRules_of_not_exact (h : policy.matchExactRules command = []) :
    policy.matchingRules host command resolving =
      policy.matchHostExecutableRules host command := by
  rw [Policy.matchingRules, if_neg (by simpa using h)]
  rfl

/-- In the second stage the merged policy has every managed match, unless the user's table
excludes the program. -/
theorem mem_matchHostExecutableRules_mergeOverlay (hmanaged : overlay.Managed)
    (hadmits : policy.AdmitsBasename host command)
    (h : found ∈ overlay.matchHostExecutableRules host command) :
    found ∈ (policy.mergeOverlay overlay).matchHostExecutableRules host command := by
  cases command with
  | nil => cases h
  | cons first args =>
    unfold Policy.matchHostExecutableRules at h ⊢
    dsimp only at h ⊢
    split at h
    · cases h
    · next program hprogram =>
      split at h
      · cases h
      · next basename hbasename =>
        split at h
        · cases h
        · have hadmits : (policy.mergeOverlay overlay).admitsProgram basename program = true := by
            rw [Policy.admitsProgram_mergeOverlay hmanaged.hostExecutables_eq]
            exact hadmits first program basename rfl hprogram hbasename
          rw [hadmits]
          obtain ⟨bare, hbare, rfl⟩ := List.mem_map.mp h
          refine List.mem_map_of_mem ?_
          rw [Policy.mergeOverlay, MultiMap.getVec_extend, List.filterMap_append]
          exact List.mem_append_right _ hbare

/-- Where the user's table excludes the program, nothing matches by basename. -/
theorem matchHostExecutableRules_of_not_admits (hmanaged : overlay.Managed)
    (hadmits : ¬policy.AdmitsBasename host command) :
    (policy.mergeOverlay overlay).matchHostExecutableRules host command = [] := by
  simp only [Policy.AdmitsBasename, not_forall] at hadmits
  obtain ⟨first, program, basename, hfirst, hprogram, hbasename, hnot⟩ := hadmits
  obtain ⟨args, rfl⟩ : ∃ args, command = first :: args := by
    cases command with
    | nil => cases hfirst
    | cons head args => exact ⟨args, by rw [Option.some.inj hfirst]⟩
  unfold Policy.matchHostExecutableRules
  dsimp only
  rw [hprogram]
  dsimp only
  rw [hbasename]
  dsimp only
  have hexcluded : (policy.mergeOverlay overlay).admitsProgram basename program = false := by
    rw [Policy.admitsProgram_mergeOverlay hmanaged.hostExecutables_eq]
    simpa using hnot
  rw [hexcluded]
  rfl

theorem exists_check (host : Host Path) (policy : Policy Path) (command : List String)
    (fallback : List String → Decision) :
    ∃ evaluation, policy.checkWithOptions host command fallback resolving = some evaluation ∧
      ∀ found ∈ policy.matchesForCommandWithOptions host command (some fallback) resolving,
        found.decision ≤ evaluation.decision := by
  obtain ⟨evaluation, h⟩ :=
    Evaluation.exists_fromMatches (show policy.matchesForCommandWithOptions host command
      (some fallback) resolving ≠ [] from Policy.matchesForCommandWithOptions_ne_nil)
  exact ⟨evaluation, h, (Evaluation.fromMatches_eq_some.mp h).2.2⟩

theorem exists_check_of_mem (h : found ∈ policy.matchingRules host command resolving)
    (fallback : List String → Decision) :
    ∃ evaluation, policy.checkWithOptions host command fallback resolving = some evaluation ∧
      found.decision ≤ evaluation.decision := by
  obtain ⟨evaluation, heval, hle⟩ := exists_check host policy command fallback
  refine ⟨evaluation, heval, hle found ?_⟩
  rw [Policy.matchesForCommandWithOptions_some, if_neg (List.ne_nil_of_mem h)]
  exact h

theorem exists_check_of_mem_exact (host : Host Path) (h : found ∈ policy.matchExactRules command)
    (fallback : List String → Decision) :
    ∃ evaluation, policy.checkWithOptions host command fallback resolving = some evaluation ∧
      found.decision ≤ evaluation.decision := by
  refine exists_check_of_mem ?_ fallback
  rw [matchingRules_of_exact (List.ne_nil_of_mem h)]
  exact h

theorem managed_decision_ne_allow (hmanaged : overlay.Managed) {evaluation : Evaluation Path}
    (h : Evaluation.fromMatches
      (overlay.matchesForCommandWithOptions host command none resolving) = some evaluation) :
    evaluation.decision ≠ .allow := by
  obtain ⟨-, ⟨found, hfound, hdecision⟩, -⟩ := Evaluation.fromMatches_eq_some.mp h
  rw [Policy.matchesForCommandWithOptions_none] at hfound
  obtain ⟨-, program, rule, hrule, heq⟩ := Policy.exists_rule_of_mem_matchingRules hfound
  rw [← hdecision, heq]
  exact hmanaged.decision_ne program rule hrule

/-- **Managed decisions and what keeps them.** The managed rules alone decide a command; the
policy with the managed rules laid over it decides at least as strictly, whatever the
fallback, exactly when `Rivloom.ExecPolicy.Keeps` holds. -/
theorem managed_decision_kept_iff (hmanaged : overlay.Managed) {evaluation : Evaluation Path}
    (h : Evaluation.fromMatches
      (overlay.matchesForCommandWithOptions host command none resolving) = some evaluation) :
    (∀ fallback, ∃ merged,
      (policy.mergeOverlay overlay).checkWithOptions host command fallback resolving =
        some merged ∧ evaluation.decision ≤ merged.decision) ↔
      Keeps host policy overlay command evaluation.decision := by
  have hnotAllow := managed_decision_ne_allow hmanaged h
  obtain ⟨-, ⟨found, hfound, hdecision⟩, -⟩ := Evaluation.fromMatches_eq_some.mp h
  rw [Policy.matchesForCommandWithOptions_none] at hfound
  have hexact : (policy.mergeOverlay overlay).matchExactRules command =
      policy.matchExactRules command ++ overlay.matchExactRules command :=
    Policy.matchExactRules_mergeOverlay
  constructor
  · intro hall
    by_contra hkeeps
    simp only [Keeps, not_or, not_and, not_exists, not_not] at hkeeps
    obtain ⟨hnoExact, hnotAdmits, hlenient⟩ := hkeeps
    rw [hnoExact, List.append_nil] at hexact
    by_cases huser : policy.matchExactRules command = []
    · -- neither stage matches: a lenient fallback decides
      obtain ⟨merged, hmerged, hle⟩ := hall fun _ => .allow
      have hnone : (policy.mergeOverlay overlay).matchingRules host command resolving = [] := by
        rw [matchingRules_of_not_exact (hexact.trans huser)]
        exact matchHostExecutableRules_of_not_admits hmanaged (hnotAdmits huser)
      rw [Policy.checkWithOptions, Policy.matchesForCommandWithOptions_some, if_pos hnone]
        at hmerged
      obtain ⟨-, ⟨only, honly, heq⟩, -⟩ := Evaluation.fromMatches_eq_some.mp hmerged
      rw [List.mem_singleton.mp honly] at heq
      rw [← heq] at hle
      exact Decision.not_le_allow hnotAllow hle
    · -- the user's rules end the search in the first stage
      obtain ⟨merged, hmerged, hle⟩ := hall fun _ => .allow
      have hrules : (policy.mergeOverlay overlay).matchingRules host command resolving =
          policy.matchExactRules command := by
        rw [matchingRules_of_exact (by rwa [hexact]), hexact]
      rw [Policy.checkWithOptions, Policy.matchesForCommandWithOptions_some, hrules,
        if_neg huser] at hmerged
      obtain ⟨-, ⟨strictest, hstrictest, heq⟩, -⟩ := Evaluation.fromMatches_eq_some.mp hmerged
      exact hlenient strictest hstrictest (heq ▸ hle)
  · have hkept (hmem : found ∈ overlay.matchExactRules command) (fallback) : ∃ merged,
        (policy.mergeOverlay overlay).checkWithOptions host command fallback resolving =
          some merged ∧ evaluation.decision ≤ merged.decision :=
      hdecision ▸ exists_check_of_mem_exact host
        (hexact ▸ List.mem_append_right _ hmem) fallback
    rintro (hown | ⟨huser, hadmits⟩ | ⟨strict, hstrict, hle⟩) fallback
    · exact hkept (matchingRules_of_exact hown _ ▸ hfound) fallback
    · by_cases hown : overlay.matchExactRules command = []
      · rw [matchingRules_of_not_exact hown] at hfound
        rw [huser, hown, List.append_nil] at hexact
        rw [← hdecision]
        refine exists_check_of_mem ?_ fallback
        rw [matchingRules_of_not_exact hexact]
        exact mem_matchHostExecutableRules_mergeOverlay hmanaged hadmits hfound
      · exact hkept (matchingRules_of_exact hown _ ▸ hfound) fallback
    · obtain ⟨merged, hmerged, hbound⟩ := exists_check_of_mem_exact host
        (hexact ▸ List.mem_append_left _ hstrict) fallback
      exact ⟨merged, hmerged, hle.trans hbound⟩

end Merge

/-! ### A managed rule that a user can lift -/

/-- `rm` is forbidden. -/
def forbidRm : RequirementsExecPolicyToml :=
  ⟨[⟨[⟨some "rm", none⟩], some .forbidden, none⟩]⟩

/-- `forbidRm` as a policy. -/
def forbidRmPolicy : Policy AbsolutePathBuf :=
  ⟨⟨[("rm", ⟨⟨"rm", []⟩, .forbidden, none⟩)]⟩, [], ∅⟩

theorem forbidRm_toPolicy : forbidRm.toPolicy AbsolutePathBuf = .ok forbidRmPolicy := rfl

/-- A host without a home and with no directory to start from. -/
def plainHost : Host AbsolutePathBuf := .unix ⟨none, none⟩

/-- The command `/bin/rm`, of a user without rules. -/
theorem managed_decision_kept_rm :
    (∀ fallback, ∃ merged,
      (Policy.empty.mergeOverlay forbidRmPolicy).checkWithOptions plainHost ["/bin/rm"] fallback
        resolving = some merged ∧ Decision.forbidden ≤ merged.decision) ↔
      Keeps plainHost Policy.empty forbidRmPolicy ["/bin/rm"] .forbidden :=
  managed_decision_kept_iff (toPolicy_managed forbidRm_toPolicy)
    (show Evaluation.fromMatches
      (forbidRmPolicy.matchesForCommandWithOptions plainHost ["/bin/rm"] none resolving) =
        some ⟨.forbidden, _⟩ from rfl)

/-- A user who allows `/bin/rm` by its path. -/
def allowBinRm : Policy AbsolutePathBuf :=
  ⟨⟨[("/bin/rm", ⟨⟨"/bin/rm", []⟩, .allow, none⟩)]⟩, [], ∅⟩

/-- A user who says that `rm` is `/usr/bin/rm`. -/
def rmElsewhere : Policy AbsolutePathBuf where
  rulesByProgram := .empty
  networkRules := []
  hostExecutablesByName :=
    (∅ : StrMap (List AbsolutePathBuf)).insert "rm"
      [⟨[⟨"usr", by decide⟩, ⟨"bin", by decide⟩, ⟨"rm", by decide⟩]⟩]

/-- **A managed rule that is lifted**: the requirements alone forbid `/bin/rm`; with a rule of
the user for that path, or with a host-executable entry that does not list it, the merged
policy allows it. -/
theorem managed_rule_is_lifted :
    forbidRm.toPolicy AbsolutePathBuf = .ok forbidRmPolicy ∧
      (Evaluation.fromMatches (forbidRmPolicy.matchesForCommandWithOptions plainHost ["/bin/rm"]
        none resolving)).map (·.decision) = some .forbidden ∧
      ((allowBinRm.mergeOverlay forbidRmPolicy).checkWithOptions plainHost ["/bin/rm"]
        (fun _ => .prompt) resolving).map (·.decision) = some .allow ∧
      ((rmElsewhere.mergeOverlay forbidRmPolicy).checkWithOptions plainHost ["/bin/rm"]
        (fun _ => .allow) resolving).map (·.decision) = some .allow := by
  refine ⟨rfl, ?_, ?_, ?_⟩ <;> decide +kernel

end Rivloom.ExecPolicy
