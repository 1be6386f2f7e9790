import Mathlib.Data.List.Forall2
import Rivloom.ExecPolicy.Approval

/-!
# Approved amendments

When a command has to be approved, the agent can ask for a *prefix rule* next to it: a rule
that allows every command with this beginning, so that the user is not asked again. The rule is
proposed only if it would really spare the question: the policy that judged the command, with
the rule added, is asked about every segment once more. When the user approves, the rule is
written to a file and put into the policy in memory
(`Rivloom.ExecPolicy.ExecPolicyManager.appendAmendmentAndUpdate`).

Adding it to the user's rules and laying the environment's over them comes to the same as
adding it to the merged policy (`Rivloom.ExecPolicy.Policy.Adds`), so an added rule has the
effect that was promised. But the update first asks whether the policy allows the prefix
*as a command*, and then leaves it as it is. That the prefix is matched as it is written
contradicts the proposal: what matches the prefix matches every command that begins with it
(`Rivloom.ExecPolicy.PrefixPattern.Begins.extend`), and no rule had matched. That it is matched
by the *basename* of the program it names does not contradict it
(`Rivloom.ExecPolicy.Policy.AllowsByBasename`): a token that is the basename of a program in the
command need not stand for a program of that basename.
-/

namespace Rivloom.ExecPolicy

variable {rest : List String} {first : String} {command : List String} {rule : PrefixRule}
  {pattern : PrefixPattern}

/-! ### Patterns -/

/-- **A command begins as a pattern says.** -/
def PrefixPattern.Begins (pattern : PrefixPattern) (command : List String) : Prop :=
  ∃ taken more, command = pattern.first :: (taken ++ more) ∧
    List.Forall₂ (fun patternToken token => patternToken.test token = true) pattern.rest taken

theorem PrefixPattern.Begins.extend (h : pattern.Begins command) (tail : List String) :
    pattern.Begins (command ++ tail) := by
  obtain ⟨taken, more, rfl, htaken⟩ := h
  exact ⟨taken, more ++ tail, by simp, htaken⟩

theorem zip_all_iff {rest : List PatternToken} {args : List String}
    (h : rest.length ≤ args.length) :
    ((rest.zip args).all fun (patternToken, token) => patternToken.test token) = true ↔
      ∃ taken more, args = taken ++ more ∧
        List.Forall₂ (fun patternToken token => patternToken.test token = true) rest taken := by
  induction rest generalizing args with
  | nil =>
    simp only [List.zip_nil_left, List.all_nil, true_iff]
    exact ⟨[], args, rfl, .nil⟩
  | cons patternToken rest ih =>
    cases args with
    | nil => exact absurd h (Nat.not_succ_le_zero _)
    | cons token args =>
      rw [List.zip_cons_cons, List.all_cons, Bool.and_eq_true_iff, ih (Nat.le_of_succ_le_succ h)]
      constructor
      · rintro ⟨htest, taken, more, rfl, htaken⟩
        exact ⟨token :: taken, more, rfl, .cons htest htaken⟩
      · rintro ⟨taken, more, hargs, htaken⟩
        obtain _ | ⟨htest, htaken⟩ := htaken
        obtain ⟨rfl, rfl⟩ := List.cons.inj hargs
        exact ⟨htest, _, more, rfl, htaken⟩

theorem PrefixPattern.exists_matchesPrefix :
    (∃ matched, pattern.matchesPrefix command = some matched) ↔ pattern.Begins command := by
  cases command with
  | nil =>
    constructor
    · rintro ⟨_, h⟩
      cases h
    · rintro ⟨_, _, h, -⟩
      cases h
  | cons program args =>
    unfold matchesPrefix Begins
    dsimp only
    split
    · next hmismatch =>
      simp only [reduceCtorEq, exists_false, false_iff]
      rintro ⟨taken, more, hcommand, htaken⟩
      obtain ⟨rfl, rfl⟩ := List.cons.inj hcommand
      have hlength := htaken.length_eq
      refine absurd hmismatch ?_
      simp [hlength]
    · next hmatch =>
      simp only [Bool.or_eq_true, decide_eq_true_eq, bne_iff_ne, not_or, not_lt, not_not]
        at hmatch
      obtain ⟨hlength, rfl⟩ := hmatch
      have hzip := zip_all_iff hlength
      split
      · next hall =>
        obtain ⟨taken, more, rfl, htaken⟩ := hzip.mp hall
        exact ⟨fun _ => ⟨taken, more, rfl, htaken⟩, fun _ => ⟨_, rfl⟩⟩
      · next hnot =>
        simp only [reduceCtorEq, exists_false, false_iff]
        rintro ⟨taken, more, hcommand, htaken⟩
        exact hnot (hzip.mpr ⟨taken, more, (List.cons.inj hcommand).2, htaken⟩)

theorem PrefixRule.exists_match? (Path : Type) :
    (∃ found : RuleMatch Path, rule.match? command = some found) ↔
      rule.pattern.Begins command := by
  rw [← PrefixPattern.exists_matchesPrefix]
  constructor
  · rintro ⟨found, hfound⟩
    obtain ⟨matched, hmatched, -⟩ := Option.map_eq_some_iff.mp hfound
    exact ⟨matched, hmatched⟩
  · rintro ⟨matched, hmatched⟩
    exact ⟨_, Option.map_eq_some_iff.mpr ⟨matched, hmatched, rfl⟩⟩

/-- The rule that allows every command with a beginning. -/
def allowRule (first : String) (rest : List String) : PrefixRule :=
  ⟨⟨first, rest.map .single⟩, .allow, none⟩

theorem begins_allowRule :
    (allowRule first rest).pattern.Begins command ↔
      ∃ tail, command = (first :: rest) ++ tail := by
  have htokens : ∀ {tokens taken : List String},
      List.Forall₂ (fun patternToken token => PatternToken.test patternToken token = true)
        (tokens.map .single) taken ↔ taken = tokens := by
    intro tokens taken
    rw [List.forall₂_map_left_iff]
    have hsingle : (fun token other : String =>
        PatternToken.test (.single token) other = true) = fun token other => token = other := by
      funext token other
      exact propext beq_iff_eq
    rw [hsingle, List.forall₂_eq_eq_eq]
    exact eq_comm
  constructor
  · rintro ⟨taken, more, rfl, htaken⟩
    exact ⟨more, by rw [htokens.mp htaken]; rfl⟩
  · rintro ⟨tail, rfl⟩
    exact ⟨rest, tail, rfl, htokens.mpr rfl⟩

/-! ### Stages -/

section Stages

variable {Path : Type} [DecidableEq Path] {host : Host Path} {policy other : Policy Path}
  {command : List String} {found : RuleMatch Path} {added : Policy Path}

omit [DecidableEq Path] in
theorem Policy.mem_matchExactRules :
    found ∈ policy.matchExactRules command ↔
      ∃ first, command.head? = some first ∧
        ∃ rule ∈ policy.rulesByProgram.getVec first, rule.match? command = some found := by
  unfold matchExactRules
  split
  · next hnone => simp [hnone]
  · next first hfirst =>
    rw [List.mem_filterMap]
    constructor
    · rintro ⟨rule, hrule, hfound⟩
      exact ⟨first, hfirst, rule, hrule, hfound⟩
    · rintro ⟨_, hother, rule, hrule, hfound⟩
      obtain rfl := Option.some.inj (hfirst.symm.trans hother)
      exact ⟨rule, hrule, hfound⟩

theorem Policy.mem_matchHostExecutableRules :
    found ∈ policy.matchHostExecutableRules host command ↔
      ∃ first args program basename, command = first :: args ∧
        host.tryFrom first = some program ∧
        host.executablePathLookupKey program = some basename ∧
        policy.admitsProgram basename program = true ∧
        ∃ rule ∈ policy.rulesByProgram.getVec basename, ∃ bare,
          rule.match? (basename :: args) = some bare ∧
            bare.withResolvedProgram program = found := by
  constructor
  · intro h
    unfold matchHostExecutableRules at h
    split at h
    · cases h
    next first args =>
    split at h
    · cases h
    next program hprogram =>
    split at h
    · cases h
    next basename hbasename =>
    split at h
    · cases h
    next hadmits =>
    obtain ⟨bare, hbare, rfl⟩ := List.mem_map.mp h
    obtain ⟨rule, hrule, hmatch⟩ := List.mem_filterMap.mp hbare
    exact ⟨first, args, program, basename, rfl, hprogram, hbasename, by simpa using hadmits, rule,
      hrule, bare, hmatch, rfl⟩
  · rintro ⟨first, args, program, basename, rfl, hprogram, hbasename, hadmits, rule, hrule, bare,
      hmatch, rfl⟩
    unfold matchHostExecutableRules
    dsimp only
    rw [hprogram]
    dsimp only
    rw [hbasename]
    dsimp only
    rw [hadmits]
    exact List.mem_map_of_mem (List.mem_filterMap.mpr ⟨rule, hrule, hmatch⟩)

omit [DecidableEq Path] in
/-- A rule for the program as it is written ends the search in the first stage. -/
theorem Policy.matchExactRules_ne_nil_iff :
    policy.matchExactRules command ≠ [] ↔
      ∃ first, command.head? = some first ∧
        ∃ rule ∈ policy.rulesByProgram.getVec first, rule.pattern.Begins command := by
  constructor
  · intro h
    obtain ⟨found, hfound⟩ := List.exists_mem_of_ne_nil _ h
    obtain ⟨first, hfirst, rule, hrule, hmatch⟩ := mem_matchExactRules.mp hfound
    exact ⟨first, hfirst, rule, hrule, (PrefixRule.exists_match? Path).mp ⟨found, hmatch⟩⟩
  · rintro ⟨first, hfirst, rule, hrule, hbegins⟩
    obtain ⟨found, hmatch⟩ := (PrefixRule.exists_match? Path).mpr hbegins
    exact List.ne_nil_of_mem (mem_matchExactRules.mpr ⟨first, hfirst, rule, hrule, hmatch⟩)

theorem Policy.matchHostExecutableRules_ne_nil_iff :
    policy.matchHostExecutableRules host command ≠ [] ↔
      ∃ first args program basename, command = first :: args ∧
        host.tryFrom first = some program ∧
        host.executablePathLookupKey program = some basename ∧
        policy.admitsProgram basename program = true ∧
        ∃ rule ∈ policy.rulesByProgram.getVec basename, rule.pattern.Begins (basename :: args) := by
  constructor
  · intro h
    obtain ⟨found, hfound⟩ := List.exists_mem_of_ne_nil _ h
    obtain ⟨first, args, program, basename, hcommand, hprogram, hbasename, hadmits, rule, hrule,
      bare, hmatch, -⟩ := mem_matchHostExecutableRules.mp hfound
    exact ⟨first, args, program, basename, hcommand, hprogram, hbasename, hadmits, rule, hrule,
      (PrefixRule.exists_match? Path).mp ⟨bare, hmatch⟩⟩
  · rintro ⟨first, args, program, basename, hcommand, hprogram, hbasename, hadmits, rule, hrule,
      hbegins⟩
    obtain ⟨bare, hmatch⟩ := (PrefixRule.exists_match? Path).mpr hbegins
    exact List.ne_nil_of_mem (mem_matchHostExecutableRules.mpr ⟨first, args, program, basename,
      hcommand, hprogram, hbasename, hadmits, rule, hrule, bare, hmatch, rfl⟩)

theorem Policy.matchingRules_eq_nil_iff :
    policy.matchingRules host command resolving = [] ↔
      policy.matchExactRules command = [] ∧
        policy.matchHostExecutableRules host command = [] := by
  by_cases hexact : policy.matchExactRules command = []
  · rw [matchingRules_of_not_exact hexact]
    exact ⟨fun h => ⟨hexact, h⟩, And.right⟩
  · rw [matchingRules_of_exact hexact]
    exact ⟨fun h => absurd h hexact, fun h => absurd h.1 hexact⟩

/-! ### Policies with the same rules -/

/-- **The same rules in another order.** -/
structure Policy.SameRules (policy other : Policy Path) : Prop where
  rules : ∀ program rule, rule ∈ policy.rulesByProgram.getVec program ↔
    rule ∈ other.rulesByProgram.getVec program
  hostExecutables : policy.hostExecutablesByName = other.hostExecutablesByName

theorem Policy.SameRules.mem_matchesForCommandWithOptions (h : policy.SameRules other)
    {fallback : List String → Decision} :
    found ∈ policy.matchesForCommandWithOptions host command (some fallback) resolving ↔
      found ∈ other.matchesForCommandWithOptions host command (some fallback) resolving := by
  have hadmits : policy.admitsProgram = other.admitsProgram := by
    funext basename program
    rw [admitsProgram, h.hostExecutables, ← admitsProgram]
  have hexact : ∀ found, found ∈ policy.matchExactRules command ↔
      found ∈ other.matchExactRules command := by
    intro found
    simp only [Policy.mem_matchExactRules, h.rules]
  have hhost : ∀ found, found ∈ policy.matchHostExecutableRules host command ↔
      found ∈ other.matchHostExecutableRules host command := by
    intro found
    simp only [Policy.mem_matchHostExecutableRules, h.rules, hadmits]
  have hnil : ∀ {l₁ l₂ : List (RuleMatch Path)}, (∀ found, found ∈ l₁ ↔ found ∈ l₂) →
      (l₁ = [] ↔ l₂ = []) := by
    intro l₁ l₂ hmem
    rw [List.eq_nil_iff_forall_not_mem, List.eq_nil_iff_forall_not_mem]
    exact forall_congr' fun found => not_congr (hmem found)
  have hmatching : ∀ found, found ∈ policy.matchingRules host command resolving ↔
      found ∈ other.matchingRules host command resolving := by
    intro found
    by_cases hnone : policy.matchExactRules command = []
    · rw [matchingRules_of_not_exact hnone, matchingRules_of_not_exact ((hnil hexact).mp hnone)]
      exact hhost found
    · rw [matchingRules_of_exact hnone,
        matchingRules_of_exact (fun hother => hnone ((hnil hexact).mpr hother))]
      exact hexact found
  rw [Policy.matchesForCommandWithOptions_some, Policy.matchesForCommandWithOptions_some]
  by_cases hnone : policy.matchingRules host command resolving = []
  · rw [if_pos hnone, if_pos ((hnil hmatching).mp hnone)]
  · rw [if_neg hnone, if_neg (fun hother => hnone ((hnil hmatching).mpr hother))]
    exact hmatching found

/-- **One rule more**: a policy has the rules of another and one that allows a prefix. -/
structure Policy.Adds (added policy : Policy Path) (first : String) (rest : List String) :
    Prop where
  rules : ∀ program rule, rule ∈ added.rulesByProgram.getVec program ↔
    rule ∈ policy.rulesByProgram.getVec program ∨ program = first ∧ rule = allowRule first rest
  hostExecutables : added.hostExecutablesByName = policy.hostExecutablesByName

omit [DecidableEq Path] in
theorem Policy.adds_addPrefixRule (h : policy.addPrefixRule (first :: rest) .allow = some added) :
    added.Adds policy first rest := by
  cases h
  refine ⟨?_, rfl⟩
  intro program rule
  rw [MultiMap.mem_getVec, MultiMap.mem_getVec]
  change (program, rule) ∈ policy.rulesByProgram.entries ++ [(first, allowRule first rest)] ↔ _
  rw [List.mem_append, List.mem_singleton, Prod.mk.injEq]

omit [DecidableEq Path] in
/-- Laying rules over the longer policy is adding to the merged one. -/
theorem Policy.Adds.mergeOverlay {added overlay : Policy Path} (h : added.Adds policy first rest) :
    (added.mergeOverlay overlay).Adds (policy.mergeOverlay overlay) first rest := by
  refine ⟨?_, ?_⟩
  · intro program rule
    simp only [Policy.mergeOverlay, MultiMap.getVec_extend, List.mem_append, h.rules]
    exact or_right_comm
  · unfold Policy.mergeOverlay
    rw [h.hostExecutables]

omit [DecidableEq Path] in
theorem Policy.Adds.sameRules (h : added.Adds policy first rest)
    (hother : other.Adds policy first rest) : added.SameRules other :=
  ⟨fun program rule => (h.rules program rule).trans (hother.rules program rule).symm,
    h.hostExecutables.trans hother.hostExecutables.symm⟩

/-- **What the added rule reaches.** A command that a policy does not match, and does match
with the rule added, begins with the tokens of the rule – as it is written, or with the
basename of its program in front. -/
theorem Policy.Adds.reaches (h : added.Adds policy first rest)
    (hnone : policy.matchingRules host command resolving = [])
    (hsome : added.matchingRules host command resolving ≠ []) :
    (∃ tail, command = first :: rest ++ tail) ∨
      ∃ head program tail, command = head :: (rest ++ tail) ∧ host.tryFrom head = some program ∧
        host.executablePathLookupKey program = some first ∧
        policy.admitsProgram first program = true := by
  obtain ⟨hexact, hhost⟩ := matchingRules_eq_nil_iff.mp hnone
  by_cases haddedExact : added.matchExactRules command = []
  · right
    rw [matchingRules_of_not_exact haddedExact] at hsome
    obtain ⟨head, args, program, basename, rfl, hprogram, hbasename, hadmits, found, hfound,
      hbegins⟩ := matchHostExecutableRules_ne_nil_iff.mp hsome
    rw [admitsProgram, h.hostExecutables, ← admitsProgram] at hadmits
    rcases (h.rules basename found).mp hfound with hold | ⟨rfl, rfl⟩
    · exact absurd hhost (matchHostExecutableRules_ne_nil_iff.mpr ⟨head, args, program, basename,
        rfl, hprogram, hbasename, hadmits, found, hold, hbegins⟩)
    · obtain ⟨tail, htail⟩ := begins_allowRule.mp hbegins
      obtain ⟨-, rfl⟩ := List.cons.inj htail
      exact ⟨head, program, tail, rfl, hprogram, hbasename, hadmits⟩
  · left
    obtain ⟨head, hhead, found, hfound, hbegins⟩ := matchExactRules_ne_nil_iff.mp haddedExact
    rcases (h.rules head found).mp hfound with hold | ⟨rfl, rfl⟩
    · exact absurd hexact (matchExactRules_ne_nil_iff.mpr ⟨head, hhead, found, hold, hbegins⟩)
    · exact begins_allowRule.mp hbegins

/-- A rule for the same program that matches the tokens of the added rule would match the
command in the policy without it, so there is none. -/
theorem Policy.Adds.not_begins (h : added.Adds policy first rest)
    (hnone : policy.matchingRules host command resolving = [])
    (hsome : added.matchingRules host command resolving ≠ [])
    (hrule : rule ∈ policy.rulesByProgram.getVec first) : ¬rule.pattern.Begins (first :: rest) := by
  intro hbegins
  obtain ⟨hexact, hhost⟩ := matchingRules_eq_nil_iff.mp hnone
  rcases h.reaches hnone hsome with
    ⟨tail, rfl⟩ | ⟨head, program, tail, rfl, hprogram, hbasename, hadmits⟩
  · exact absurd hexact (matchExactRules_ne_nil_iff.mpr
      ⟨first, rfl, rule, hrule, hbegins.extend tail⟩)
  · exact absurd hhost (matchHostExecutableRules_ne_nil_iff.mpr ⟨head, rest ++ tail, program, first,
      rfl, hprogram, hbasename, hadmits, rule, hrule, hbegins.extend tail⟩)

end Stages

/-! ### The update -/

section Update

variable {Path : Type} [DecidableEq Path] {host : Host Path}

inductive ExecPolicyUpdateError where
  | appendRule | joinBlockingTask | addRule

/-- The policy allows the prefix, taken for a command of its own. -/
def alreadyAllowed (host : Host Path) (policy : Policy Path) (amendment : List String) : Bool :=
  (policy.checkMultipleWithOptions host [amendment] (fun _ => .forbidden) resolving).any
    fun existingEvaluation =>
      decide (existingEvaluation.decision = .allow) &&
        existingEvaluation.matchedRules.any fun ruleMatch =>
          ruleMatch.isPolicyMatch && decide (ruleMatch.decision = .allow)

/-- **An approved amendment**: the rule is written to the rules file, which may fail, and put
into the policy unless the policy allows the prefix already. -/
def ExecPolicyManager.appendAmendmentAndUpdate (host : Host Path)
    (manager : ExecPolicyManager Path) (written : Except ExecPolicyUpdateError Unit)
    (amendment : List String) : Except ExecPolicyUpdateError (ExecPolicyManager Path) :=
  match written with
  | .error error => .error error
  | .ok () =>
    if alreadyAllowed host manager.current amendment then .ok manager
    else
      match manager.current.addPrefixRule amendment .allow with
      | none => .error .addRule
      | some updatedPolicy => .ok ⟨updatedPolicy⟩

theorem alreadyAllowed_iff {policy : Policy Path} {amendment : List String} :
    alreadyAllowed host policy amendment = true ↔
      policy.matchingRules host amendment resolving ≠ [] ∧
        ∀ found ∈ policy.matchingRules host amendment resolving, found.decision = .allow := by
  have hcheck : policy.checkMultipleWithOptions host [amendment] (fun _ => .forbidden) resolving =
      Evaluation.fromMatches
        (policy.matchesForCommandWithOptions host amendment (some fun _ => .forbidden)
          resolving) := by
    unfold Policy.checkMultipleWithOptions
    rw [List.flatMap_singleton]
  unfold alreadyAllowed
  rw [hcheck, Option.any_eq_true]
  simp only [Bool.and_eq_true, decide_eq_true_eq, List.any_eq_true]
  constructor
  · rintro ⟨existing, hexisting, hallow, found, hfound, hpolicy, -⟩
    obtain ⟨hmatches, -, hbound⟩ := Evaluation.fromMatches_eq_some.mp hexisting
    rw [hmatches] at hfound
    rw [Policy.matchesForCommandWithOptions_some] at hfound hbound
    split at hfound
    · rw [List.mem_singleton.mp hfound] at hpolicy
      cases hpolicy
    · next hne =>
      refine ⟨hne, ?_⟩
      intro other hother
      rw [if_neg hne] at hbound
      exact le_antisymm (hallow ▸ hbound other hother) (Decision.allow_le _)
  · rintro ⟨hne, hall⟩
    obtain ⟨found, hfound⟩ := List.exists_mem_of_ne_nil _ hne
    rw [Policy.matchesForCommandWithOptions_some, if_neg hne]
    refine ⟨⟨.allow, policy.matchingRules host amendment resolving⟩,
      Evaluation.fromMatches_eq_some.mpr ⟨rfl, ⟨found, hfound, hall found hfound⟩, ?_⟩, rfl, found,
      hfound, (Policy.exists_rule_of_mem_matchingRules hfound).1, hall found hfound⟩
    intro other hother
    exact (hall other hother).le

/-- **The prefix is allowed by a basename**: as a command, its first token is a program that
rules know by its basename, and those of them that match all allow. -/
def Policy.AllowsByBasename (host : Host Path) (policy : Policy Path) (amendment : List String) :
    Prop :=
  policy.matchHostExecutableRules host amendment ≠ [] ∧
    ∀ found ∈ policy.matchHostExecutableRules host amendment, found.decision = .allow

/-! ### Proposals -/

variable {Uri : Type} {shell : Shell} {manager : ExecPolicyManager Path}
  {request : ExecApprovalRequest Path Uri} {evaluation : Evaluation Path} {amendment : List String}

/-- The amendment that the requested prefix rule gives for an evaluation. -/
def requestedAmendment (shell : Shell) (host : Host Path) (manager : ExecPolicyManager Path)
    (request : ExecApprovalRequest Path Uri) (evaluation : Evaluation Path) :
    Option (List String) :=
  if request.allowPrefixRules = .honor then
    deriveRequestedExecpolicyAmendmentFromPrefixRule host request.prefixRule
      evaluation.matchedRules
      (manager.currentForEnvironment request.environmentPolicy request.allowPrefixRules)
      (commandsForExecPolicy shell request.command) (execPolicyFallback shell request) resolving
  else none

theorem decision_of_needsApproval {reason : Option String} {proposed : Option (List String)}
    (h : requirementOf shell host manager request evaluation = .needsApproval reason proposed) :
    evaluation.decision = .prompt := by
  unfold requirementOf at h
  dsimp only at h
  cases hdecision : evaluation.decision with
  | prompt => rfl
  | forbidden =>
    rw [hdecision] at h
    cases h
  | allow =>
    rw [hdecision] at h
    cases h

theorem requirementOf_allow (hdecision : evaluation.decision = .allow) :
    ∃ bypass proposed, requirementOf shell host manager request evaluation =
      .skip bypass proposed := by
  unfold requirementOf
  dsimp only
  rw [hdecision]
  exact ⟨_, _, rfl⟩

/-- **What a proposal promises**: no rule matched any segment, some segment is not allowed
without the rule, and with the rule added to the policy all of them are. -/
structure Promised (shell : Shell) (host : Host Path) (manager : ExecPolicyManager Path)
    (request : ExecApprovalRequest Path Uri) (first : String) (rest : List String) : Prop where
  honor : request.allowPrefixRules = .honor
  unmatched : ∀ segment ∈ commandsForExecPolicy shell request.command,
    (manager.currentForEnvironment request.environmentPolicy .honor).matchingRules host segment
      resolving = []
  prompts : ∃ segment ∈ commandsForExecPolicy shell request.command,
    execPolicyFallback shell request segment ≠ .allow
  approves : ∃ added : Policy Path,
    added.Adds (manager.currentForEnvironment request.environmentPolicy .honor) first rest ∧
    ∀ segment ∈ commandsForExecPolicy shell request.command,
      ∀ found ∈ added.matchesForCommandWithOptions host segment
        (some (execPolicyFallback shell request)) resolving, found.decision = .allow

theorem promised_of_requested
    (hevaluation : manager.evaluate shell host request = some evaluation)
    (hprompt : evaluation.decision = .prompt)
    (h : requestedAmendment shell host manager request evaluation = some amendment) :
    ∃ first rest, amendment = first :: rest ∧ Promised shell host manager request first rest := by
  unfold requestedAmendment at h
  split at h
  case isFalse => cases h
  next hhonor =>
  unfold deriveRequestedExecpolicyAmendmentFromPrefixRule at h
  split at h
  · cases h
  split at h
  · cases h
  split at h
  · cases h
  split at h
  · cases h
  next hnoRule =>
  split at h
  case isFalse => cases h
  next happroves =>
  cases h
  rw [hhonor] at happroves
  obtain ⟨hmatches, ⟨strictest, hstrictest, hdecision⟩, -⟩ :=
    Evaluation.fromMatches_eq_some.mp hevaluation
  rw [hhonor] at hmatches hstrictest
  have hunmatched : ∀ segment ∈ commandsForExecPolicy shell request.command,
      (manager.currentForEnvironment request.environmentPolicy .honor).matchingRules host segment
        resolving = [] := by
    intro segment hsegment
    by_contra hne
    obtain ⟨found, hfound⟩ := List.exists_mem_of_ne_nil _ hne
    refine hnoRule (List.any_eq_true.mpr ⟨found, ?_,
      (Policy.exists_rule_of_mem_matchingRules hfound).1⟩)
    rw [hmatches]
    refine List.mem_flatMap.mpr ⟨segment, hsegment, ?_⟩
    rw [Policy.matchesForCommandWithOptions_some, if_neg hne]
    exact hfound
  unfold prefixRuleWouldApproveAllCommands at happroves
  split at happroves
  · cases happroves
  next added hadded =>
  cases amendment with
  | nil => cases hadded
  | cons first rest =>
    refine ⟨first, rest, rfl, hhonor, hunmatched, ?_, added, Policy.adds_addPrefixRule hadded, ?_⟩
    · -- the prompt comes from the heuristic for some segment
      obtain ⟨segment, hsegment, hfound⟩ := List.mem_flatMap.mp hstrictest
      rw [Policy.matchesForCommandWithOptions_some, if_pos (hunmatched segment hsegment)] at hfound
      refine ⟨segment, hsegment, ?_⟩
      intro hallow
      rw [List.mem_singleton.mp hfound, hprompt] at hdecision
      change execPolicyFallback shell request segment = .prompt at hdecision
      rw [hallow] at hdecision
      cases hdecision
    · intro segment hsegment found hfound
      obtain ⟨checked, hchecked, hallow⟩ := (Option.any_eq_true _ _).mp
        (List.all_eq_true.mp happroves segment hsegment)
      have hbound := (Evaluation.fromMatches_eq_some.mp hchecked).2.2 found hfound
      rw [of_decide_eq_true hallow] at hbound
      exact le_antisymm hbound (Decision.allow_le _)

theorem Promised.exists_reached (h : Promised shell host manager request first rest) :
    ∃ (segment : List String) (added : Policy Path),
      added.Adds (manager.currentForEnvironment request.environmentPolicy .honor) first rest ∧
      (manager.currentForEnvironment request.environmentPolicy .honor).matchingRules host segment
        resolving = [] ∧
      added.matchingRules host segment resolving ≠ [] := by
  obtain ⟨segment, hsegment, hprompts⟩ := h.prompts
  obtain ⟨added, hadds, happroves⟩ := h.approves
  refine ⟨segment, added, hadds, h.unmatched segment hsegment, ?_⟩
  intro hnil
  refine hprompts (happroves segment hsegment (.heuristicsRuleMatch segment
    (execPolicyFallback shell request segment)) ?_)
  rw [Policy.matchesForCommandWithOptions_some, if_pos hnil]
  exact List.mem_singleton_self _

omit [DecidableEq Path] in
/-- The rules of the user stay when those of the environment are laid over them. -/
theorem mem_currentForEnvironment {environmentPolicy : Option (Policy Path)} {program : String}
    (h : rule ∈ manager.current.rulesByProgram.getVec program) :
    rule ∈ (manager.currentForEnvironment environmentPolicy .honor).rulesByProgram.getVec
      program := by
  cases environmentPolicy with
  | none => exact h
  | some overlay =>
    change rule ∈ (manager.current.rulesByProgram.extend overlay.rulesByProgram).getVec program
    rw [MultiMap.getVec_extend]
    exact List.mem_append_left _ h

/-- Of a promised rule the policy allows the prefix already only by a basename. -/
theorem Promised.alreadyAllowed_iff (h : Promised shell host manager request first rest) :
    alreadyAllowed host manager.current (first :: rest) = true ↔
      manager.current.AllowsByBasename host (first :: rest) := by
  obtain ⟨segment, added, hadds, hnone, hsome⟩ := h.exists_reached
  have hexact : manager.current.matchExactRules (first :: rest) = [] := by
    by_contra hne
    obtain ⟨head, hhead, rule, hrule, hbegins⟩ := Policy.matchExactRules_ne_nil_iff.mp hne
    obtain rfl := Option.some.inj hhead
    -- the rule is one of the merged policy, which does not match the segment
    exact hadds.not_begins hnone hsome (mem_currentForEnvironment hrule) hbegins
  rw [ExecPolicy.alreadyAllowed_iff, matchingRules_of_not_exact hexact]
  rfl

theorem Promised.skip_of_added (h : Promised shell host manager request first rest)
    {updatedPolicy : Policy Path}
    (hadded : manager.current.addPrefixRule (first :: rest) .allow = some updatedPolicy) :
    ∃ bypass proposed,
      ExecPolicyManager.createExecApprovalRequirementForCommand shell host ⟨updatedPolicy⟩ request =
        some (.skip bypass proposed) := by
  obtain ⟨added, hadds, happroves⟩ := h.approves
  have hupdated : (ExecPolicyManager.currentForEnvironment ⟨updatedPolicy⟩
      request.environmentPolicy request.allowPrefixRules).Adds
        (manager.currentForEnvironment request.environmentPolicy .honor) first rest := by
    rw [h.honor]
    cases request.environmentPolicy with
    | none => exact Policy.adds_addPrefixRule hadded
    | some overlay => exact (Policy.adds_addPrefixRule hadded).mergeOverlay
  obtain ⟨evaluation, hevaluation⟩ := exists_evaluate shell host ⟨updatedPolicy⟩ request
  have hallow : evaluation.decision = .allow := by
    obtain ⟨-, ⟨found, hfound, hdecision⟩, -⟩ := Evaluation.fromMatches_eq_some.mp hevaluation
    obtain ⟨segment, hsegment, hmatch⟩ := List.mem_flatMap.mp hfound
    rw [← hdecision]
    exact happroves segment hsegment found
      ((hupdated.sameRules hadds).mem_matchesForCommandWithOptions.mp hmatch)
  obtain ⟨bypass, proposed, hrequirement⟩ := requirementOf_allow hallow
  exact ⟨bypass, proposed, Option.map_eq_some_iff.mpr ⟨evaluation, hevaluation, hrequirement⟩⟩

/-- **An approved amendment takes effect**: after the update the same request is not asked
about again, unless the prefix was already allowed by a basename. -/
theorem approved_amendment_takes_effect_iff (shell : Shell) (host : Host Path)
    (manager updated : ExecPolicyManager Path) (request : ExecApprovalRequest Path Uri)
    (evaluation : Evaluation Path) (reason : Option String) (amendment : List String)
    (written : Except ExecPolicyUpdateError Unit)
    (hevaluation : manager.evaluate shell host request = some evaluation)
    (hproposed : manager.createExecApprovalRequirementForCommand shell host request =
      some (.needsApproval reason (some amendment)))
    (hrequested : requestedAmendment shell host manager request evaluation = some amendment)
    (hupdate : manager.appendAmendmentAndUpdate host written amendment = .ok updated) :
    (∃ bypass proposed, updated.createExecApprovalRequirementForCommand shell host request =
        some (.skip bypass proposed)) ↔
      ¬manager.current.AllowsByBasename host amendment := by
  have hprompt : evaluation.decision = .prompt := by
    obtain ⟨again, hagain, hrequirement⟩ := Option.map_eq_some_iff.mp hproposed
    obtain rfl := Option.some.inj (hevaluation.symm.trans hagain)
    exact decision_of_needsApproval hrequirement
  obtain ⟨first, rest, rfl, hpromised⟩ := promised_of_requested hevaluation hprompt hrequested
  unfold ExecPolicyManager.appendAmendmentAndUpdate at hupdate
  split at hupdate
  · cases hupdate
  rw [← hpromised.alreadyAllowed_iff]
  split at hupdate
  · next hallowed =>
    -- nothing changed, so the answer is the one from before
    cases hupdate
    simp only [hproposed, hallowed, not_true_eq_false, iff_false]
    rintro ⟨bypass, proposed, hskip⟩
    cases hskip
  · next hallowed =>
    split at hupdate
    · cases hupdate
    next updatedPolicy hadded =>
    cases hupdate
    exact ⟨fun _ => hallowed, fun _ => hpromised.skip_of_added hadded⟩

end Update

/-! ### A program named `~` -/

/-- The home directory is `/root`. -/
def homeHost : Host AbsolutePathBuf := .unix ⟨some "/root", none⟩

/-- A user who allows `root`. -/
def allowRoot : ExecPolicyManager AbsolutePathBuf :=
  ⟨⟨⟨[("root", ⟨⟨"root", []⟩, .allow, none⟩)]⟩, [], ∅⟩⟩

/-- A command with a prefix rule for the basename of its program, of a user who is asked about
everything. -/
def prefixRequest (program basename : String) :
    ExecApprovalRequest AbsolutePathBuf AbsolutePathBuf :=
  ⟨[program], .unlessTrusted, .disabled, none, .useDefault, some [basename], .honor⟩

/-- The evaluation of such a command without a rule. -/
def promptEvaluation (program : String) : Evaluation AbsolutePathBuf :=
  ⟨.prompt, [.heuristicsRuleMatch [program] .prompt]⟩

/-- The user allows `root` and `tool`. -/
def allowTool : ExecPolicyManager AbsolutePathBuf :=
  ⟨⟨⟨[("root", ⟨⟨"root", []⟩, .allow, none⟩), ("tool", ⟨⟨"tool", []⟩, .allow, none⟩)]⟩, [], ∅⟩⟩

/-- The rule `tool`, asked for with `/opt/tool`, is added. -/
theorem approved_amendment_takes_effect_tool :
    (∃ bypass proposed, allowTool.createExecApprovalRequirementForCommand plainShell homeHost
        (prefixRequest "/opt/tool" "tool") = some (.skip bypass proposed)) ↔
      ¬allowRoot.current.AllowsByBasename homeHost ["tool"] :=
  approved_amendment_takes_effect_iff plainShell homeHost allowRoot allowTool
    (prefixRequest "/opt/tool" "tool") (promptEvaluation "/opt/tool") none ["tool"] (.ok ())
    rfl rfl rfl rfl

/-- **An approved amendment that has no effect**: the rule `~` is proposed for `/opt/~` and
approved, and the user is asked again, since `~` as a command is the home directory, whose name
the policy allows. -/
theorem amendment_without_effect :
    allowRoot.evaluate plainShell homeHost (prefixRequest "/opt/~" "~") =
        some (promptEvaluation "/opt/~") ∧
      allowRoot.createExecApprovalRequirementForCommand plainShell homeHost
        (prefixRequest "/opt/~" "~") = some (.needsApproval none (some ["~"])) ∧
      requestedAmendment plainShell homeHost allowRoot (prefixRequest "/opt/~" "~")
        (promptEvaluation "/opt/~") = some ["~"] ∧
      allowRoot.appendAmendmentAndUpdate homeHost (.ok ()) ["~"] = .ok allowRoot ∧
      allowRoot.createExecApprovalRequirementForCommand plainShell homeHost
        (prefixRequest "/opt/~" "~") = some (.needsApproval none (some ["~"])) :=
  ⟨rfl, rfl, rfl, rfl, rfl⟩

end Rivloom.ExecPolicy
